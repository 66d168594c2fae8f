import FirmwareCatalog.Json.Number
import FirmwareCatalog.Json.Printer
import FirmwareCatalog.Proofs.Text.Numeral
import Mathlib.Data.List.TakeWhile

/-!
# Numbers read back

A number ends where no digit, point or exponent mark follows, so what stands
behind a number does not change it. Integers of 64 bits read back; a float does
when the decimal that is written for it is scaled back to the same float.
-/

namespace FirmwareCatalog.JsonNumber

open Numeral

/-- The text that is written for the number reads as the number. -/
def ReadsBack (n : JsonNumber) : Prop := read? n.render.toList = some (n, [])

/-! ## What follows a number -/

/-- A text whose first character cannot go on with a number. -/
def Ends (rest : List Char) : Prop :=
  ∀ c ∈ rest.head?, c.isDigit = false ∧ c ≠ '.' ∧ c ≠ 'e' ∧ c ≠ 'E'

theorem takeWhile_isDigit_append {rest : List Char} (h : Ends rest) (cs : List Char) :
    (cs ++ rest).takeWhile Char.isDigit = cs.takeWhile Char.isDigit ∧
      (cs ++ rest).dropWhile Char.isDigit = cs.dropWhile Char.isDigit ++ rest := by
  induction cs with
  | nil =>
    cases rest with
    | nil => exact ⟨rfl, rfl⟩
    | cons c rest => simp [(h c rfl).1]
  | cons c cs ih =>
    by_cases hc : c.isDigit
    · simp [hc, ih]
    · simp [hc]

theorem takeDigits?_append {rest : List Char} (h : Ends rest) (cs : List Char) :
    takeDigits? (cs ++ rest) = (takeDigits? cs).map fun p => (p.1, p.2 ++ rest) := by
  obtain ⟨taken, dropped⟩ := takeWhile_isDigit_append h cs
  unfold takeDigits?
  rw [taken, dropped]
  split <;> rfl

/-! The steps of the reader, each with what it leaves of a longer text. -/

def takeMinus : List Char → Bool × List Char
  | '-' :: cs => (true, cs)
  | cs => (false, cs)

/-- The point and the digits behind it; `true` where there is no point. -/
def takeFraction? (whole : Parts) (cs : List Char) : Option (Parts × Bool × List Char) :=
  match cs with
  | '.' :: cs => do
    let (digits, cs) ← takeDigits? cs
    pure (collectFraction whole digits, false, cs)
  | cs => pure (whole, true, cs)

def behindMark? (cs : List Char) : Option (List Char) :=
  match cs with
  | c :: cs => if c = 'e' ∨ c = 'E' then some cs else none
  | [] => none

def takeExponent? (negative : Bool) (parts : Parts) (isWhole : Bool) (cs : List Char) :
    Option (JsonNumber × List Char) :=
  match behindMark? cs with
  | some cs => do
    let (negativeExponent, cs) := Decimal.takeSign cs
    let (digits, cs) ← takeDigits? cs
    let exponent ← digits? 10 digits
    return (← ofExponent? negative parts negativeExponent exponent, cs)
  | none => do
    if isWhole then return (← ofWhole? negative parts, cs)
    else return (.real (Decimal.withSign negative (← parts.toFloat?)), cs)

theorem takeFraction?_of_ne {cs : List Char} (h : ∀ rest, cs ≠ '.' :: rest) (whole : Parts) :
    takeFraction? whole cs = some (whole, true, cs) := by
  unfold takeFraction?
  split
  · exact absurd rfl (h _)
  · rfl

theorem read?_eq (cs : List Char) :
    read? cs = (takeDigits? (takeMinus cs).2).bind fun p =>
      if p.1.head? = some '0' ∧ p.1.length ≠ 1 then none
      else (takeFraction? (collectWhole ⟨0, 0⟩ p.1) p.2).bind fun q =>
        takeExponent? (takeMinus cs).1 q.1 q.2.1 q.2.2 := by
  unfold read?
  split
  rename_i negative body sign
  rw [show takeMinus cs = (negative, body) from sign]
  cases takeDigits? body with
  | none => rfl
  | some p =>
    obtain ⟨digits, cs⟩ := p
    simp only [Option.bind_eq_bind, Option.bind_some]
    split
    · rfl
    · split
      · rename_i cs
        rw [show ∀ whole, takeFraction? whole ('.' :: cs) =
          (takeDigits? cs).bind fun p => some (collectFraction whole p.1, false, p.2) from fun _ => rfl]
        cases takeDigits? cs <;> rfl
      · rename_i noPoint
        rw [takeFraction?_of_ne fun rest he => noPoint rest he]
        rfl

theorem takeMinus_append {cs : List Char} (h : cs ≠ []) (rest : List Char) :
    takeMinus (cs ++ rest) = ((takeMinus cs).1, (takeMinus cs).2 ++ rest) := by
  cases cs with
  | nil => exact absurd rfl h
  | cons c cs =>
    by_cases hc : c = '-'
    · subst hc; rfl
    · simp [takeMinus, hc]

theorem takeSign_append {cs : List Char} (h : cs ≠ []) (rest : List Char) :
    Decimal.takeSign (cs ++ rest) = ((Decimal.takeSign cs).1, (Decimal.takeSign cs).2 ++ rest) := by
  cases cs with
  | nil => exact absurd rfl h
  | cons c cs =>
    by_cases hm : c = '-'
    · subst hm; rfl
    · by_cases hp : c = '+'
      · subst hp; rfl
      · simp [Decimal.takeSign, hm, hp]

theorem takeFraction?_append {rest : List Char} (ends : Ends rest) (whole : Parts) (cs : List Char) :
    takeFraction? whole (cs ++ rest) = (takeFraction? whole cs).map fun p => (p.1, p.2.1, p.2.2 ++ rest) := by
  by_cases h : ∃ behind, cs = '.' :: behind
  · obtain ⟨behind, rfl⟩ := h
    change ((takeDigits? (behind ++ rest)).bind fun p => some (collectFraction whole p.1, false, p.2)) =
      ((takeDigits? behind).bind fun p => some (collectFraction whole p.1, false, p.2)).map _
    rw [takeDigits?_append ends]
    cases takeDigits? behind <;> rfl
  · have first : ∀ behind, cs ≠ '.' :: behind := fun behind he => h ⟨behind, he⟩
    have second : ∀ behind, cs ++ rest ≠ '.' :: behind := by
      intro behind he
      cases cs with
      | nil => exact (ends '.' (by rw [List.nil_append] at he; rw [he]; rfl)).2.1 rfl
      | cons c cs => exact first cs (by rw [List.cons_append] at he; rw [(List.cons.inj he).1])
    rw [takeFraction?_of_ne first, takeFraction?_of_ne second]
    rfl

theorem behindMark?_append {rest : List Char} (ends : Ends rest) (cs : List Char) :
    behindMark? (cs ++ rest) = (behindMark? cs).map (· ++ rest) := by
  cases cs with
  | nil =>
    cases rest with
    | nil => rfl
    | cons c rest => simp [behindMark?, (ends c rfl).2.2]
  | cons c cs =>
    simp only [List.cons_append, behindMark?]
    split <;> rfl

theorem takeExponent?_append {rest tail cs : List Char} {negative isWhole : Bool} {parts : Parts}
    {n : JsonNumber}
    (ends : Ends rest) (h : takeExponent? negative parts isWhole cs = some (n, tail)) :
    takeExponent? negative parts isWhole (cs ++ rest) = some (n, tail ++ rest) := by
  unfold takeExponent? at h ⊢
  rw [behindMark?_append ends]
  cases hm : behindMark? cs with
  | none =>
    simp only [hm, Option.map_none] at h ⊢
    split at h
    all_goals
      obtain ⟨value, found, answer⟩ := Option.bind_eq_some_iff.mp h
      cases answer
      simp [*]
  | some behind =>
    simp only [hm, Option.map_some] at h ⊢
    have written : behind ≠ [] := by
      rintro rfl
      cases h
    rw [takeSign_append written, takeDigits?_append ends]
    obtain ⟨⟨digits, cs⟩, taken, h⟩ := Option.bind_eq_some_iff.mp h
    obtain ⟨exponent, read, h⟩ := Option.bind_eq_some_iff.mp h
    obtain ⟨value, found, answer⟩ := Option.bind_eq_some_iff.mp h
    cases answer
    simp [*]

theorem read?_append {cs tail rest : List Char} {n : JsonNumber} (h : read? cs = some (n, tail))
    (ends : Ends rest) : read? (cs ++ rest) = some (n, tail ++ rest) := by
  have written : cs ≠ [] := by
    rintro rfl
    cases h
  rw [read?_eq] at h ⊢
  obtain ⟨⟨digits, behind⟩, taken, h⟩ := Option.bind_eq_some_iff.mp h
  rw [takeMinus_append written, takeDigits?_append ends, taken, Option.map_some, Option.bind_some]
  simp only at h ⊢
  split at h
  · cases h
  · rename_i noZero
    obtain ⟨⟨parts, isWhole, behind⟩, found, h⟩ := Option.bind_eq_some_iff.mp h
    rw [if_neg noZero, takeFraction?_append ends, found, Option.map_some, Option.bind_some]
    exact takeExponent?_append ends h

theorem ReadsBack.read?_append {n : JsonNumber} (h : n.ReadsBack) {rest : List Char} (ends : Ends rest) :
    read? (n.render.toList ++ rest) = some (n, rest) :=
  JsonNumber.read?_append h ends

theorem exists_head_of_read? {cs rest : List Char} {n : JsonNumber} (h : read? cs = some (n, rest)) :
    ∃ c, cs.head? = some c ∧ (c = '-' ∨ c.isDigit = true) := by
  cases cs with
  | nil => cases h
  | cons c cs =>
    refine ⟨c, rfl, ?_⟩
    by_cases minus : c = '-'
    · exact .inl minus
    · right
      by_contra other
      have unsigned : takeMinus (c :: cs) = (false, c :: cs) := by simp [takeMinus, minus]
      rw [read?_eq, unsigned] at h
      simp [takeDigits?, other] at h

/-! ## Integers -/

theorem digitOf_digitChar {d : Nat} (h : d < 10) : digitOf (digitChar d) = d := by
  interval_cases d <;> decide

theorem collectWhole_append {p q : Parts} {a : List Char} (h : collectWhole p a = q)
    (fit : q.exponent = p.exponent)
    (b : List Char) : collectWhole p (a ++ b) = collectWhole q b := by
  induction a generalizing p with
  | nil => rw [← h]; rfl
  | cons c a ih =>
    simp only [List.cons_append, collectWhole] at h ⊢
    split at h
    · rename_i fits
      rw [if_pos fits]
      exact ih h fit
    · rw [← h] at fit
      simp only at fit
      omega

theorem collectWhole_decimal {n : Nat} (h : fits n = true) : collectWhole ⟨0, 0⟩ (decimal n) = ⟨n, 0⟩ := by
  induction n using Nat.strongRecOn with
  | ind n ih =>
    rw [decimal]
    split
    · rename_i small
      simp [collectWhole, digitOf_digitChar small, h]
    · rename_i large
      have shorter : fits (n / 10) = true := by
        unfold fits at h ⊢
        simp only [decide_eq_true_eq] at h ⊢
        omega
      have last : n / 10 * 10 + n % 10 = n := by omega
      rw [collectWhole_append (ih (n / 10) (by omega) shorter) rfl]
      simp [collectWhole, digitOf_digitChar (Nat.mod_lt n (by decide)), last, h]

theorem eq_zero_of_head?_decimal {n : Nat} (h : (decimal n).head? = some '0') : n = 0 := by
  induction n using Nat.strongRecOn with
  | ind n ih =>
    rw [decimal] at h
    split at h
    · rename_i small
      interval_cases n <;> first | rfl | cases h
    · rename_i large
      have first : (decimal (n / 10)).head? = some '0' := by
        rwa [List.head?_append, Option.or_of_isSome (by simpa using decimal_ne_nil (n / 10))] at h
      have zero := ih (n / 10) (by omega) first
      omega

theorem takeDigits?_decimal (n : Nat) : takeDigits? (decimal n) = some (decimal n, []) := by
  have digits : ∀ c ∈ decimal n, c.isDigit = true :=
    forall_mem_decimal (fun d hd => by interval_cases d <;> decide) n
  unfold takeDigits?
  rw [List.takeWhile_eq_self_iff.mpr digits, List.dropWhile_eq_nil_iff.mpr digits,
    if_neg (by simpa using decimal_ne_nil n)]

theorem takeMinus_decimal (n : Nat) : takeMinus (decimal n) = (false, decimal n) := by
  unfold takeMinus
  split
  · rename_i cs he
    exact absurd (he ▸ List.mem_cons_self) (notMem_decimal (c := '-') (by decide) n)
  · rfl

theorem read?_of_takeMinus {cs : List Char} {negative : Bool} {n : Nat}
    (h : takeMinus cs = (negative, decimal n)) (fit : fits n = true) :
    read? cs = (ofWhole? negative ⟨n, 0⟩).map fun v => (v, []) := by
  have noZero : ¬ ((decimal n).head? = some '0' ∧ (decimal n).length ≠ 1) := by
    rintro ⟨zero, long⟩
    rw [eq_zero_of_head?_decimal zero, decimal] at long
    exact long rfl
  rw [read?_eq, h, takeDigits?_decimal, Option.bind_some, if_neg noZero, collectWhole_decimal fit]
  change (ofWhole? negative ⟨n, 0⟩).bind _ = _
  cases ofWhole? negative ⟨n, 0⟩ <;> rfl

theorem readsBack_integer {v : Int} (low : -9223372036854775808 ≤ v) (high : v < 18446744073709551616) :
    ReadsBack (.integer v) := by
  cases v with
  | ofNat n =>
    have fit : fits n = true := decide_eq_true (Int.ofNat_lt.mp high)
    have text : (render (.integer (.ofNat n))).toList = decimal n := toList_decimalText n
    unfold ReadsBack
    rw [text, read?_of_takeMinus (takeMinus_decimal n) fit]
    rfl
  | negSucc n =>
    have fit : fits (n + 1) = true := by
      unfold fits
      simp only [decide_eq_true_eq]
      omega
    have text : (render (.integer (.negSucc n))).toList = '-' :: decimal (n + 1) := by
      simp [render, integerText]
    have bound : ¬ (n + 1 = 0 ∨ 9223372036854775808 < n + 1) := by omega
    have minus : takeMinus ('-' :: decimal (n + 1)) = (true, decimal (n + 1)) := rfl
    unfold ReadsBack
    rw [text, read?_of_takeMinus minus fit]
    simp only [ofWhole?]
    rw [if_neg (by simp), if_neg (by simp), if_neg bound]
    rfl

end FirmwareCatalog.JsonNumber

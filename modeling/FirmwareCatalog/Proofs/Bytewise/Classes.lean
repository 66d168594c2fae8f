import FirmwareCatalog.Header.Zone
import FirmwareCatalog.Proofs.Bytewise.Text

/-!
# The classes of bytes

The lexer run over bytes enters a pair at its first byte and passes the second
one, which may be the first of several bytes of a character. It gives every byte
of a character the zone of the character nevertheless: the other bytes mean
nothing to it, and a pair that changes the zone ends in an ASCII character.
-/

namespace FirmwareCatalog.Bytewise

open Header Utf8

/-! ## Bytes as characters -/

def byteChar (b : UInt8) : Char := Char.ofNat b.toNat

theorem toNat_byteChar (b : UInt8) : (byteChar b).toNat = b.toNat := by
  have hlt := b.toNat_lt
  have hvalid : b.toNat.isValidChar := .inl (by omega)
  rw [byteChar, Char.ofNat, dif_pos hvalid]
  rfl

theorem byteChar_byte {c : Char} (h : IsAscii c) : byteChar (byte c) = c := by
  rw [byteChar, toNat_byte_ascii h, Char.ofNat_toNat]

theorem byteChar_eq_iff {c : Char} (h : IsAscii c) (b : UInt8) : byteChar b = c ↔ b = byte c := by
  constructor
  · rintro rfl
    rw [byte, toNat_byteChar, UInt8.ofNat_toNat]
  · rintro rfl
    exact byteChar_byte h

theorem map_byteChar_ascii {c : Char} (h : IsAscii c) : (encode [c]).map byteChar = [c] := by
  rw [encode_ascii h, List.map_singleton, byteChar_byte h]

theorem byteChar_ne_of_mem {c d : Char} (hd : IsAscii d) (hne : c ≠ d) {b : UInt8} (hb : b ∈ encode [c]) :
    byteChar b ≠ d := by
  intro h
  rw [byteChar_eq_iff hd] at h
  exact notMem_encode hd hne (h ▸ hb)

theorem not_isAscii_byteChar {c : Char} (h : ¬ IsAscii c) {b : UInt8} (hb : b ∈ encode [c]) :
    ¬ IsAscii (byteChar b) := by
  intro hascii
  unfold IsAscii at hascii
  rw [toNat_byteChar] at hascii
  have hmem := mem_encode_of_lt hb hascii
  rw [List.mem_singleton] at hmem
  apply h
  rw [← hmem, IsAscii, show Char.ofNat b.toNat = byteChar b from rfl, toNat_byteChar]
  exact hascii

/-- What comes next is the same to the lexer, up to characters that mean nothing to it. -/
theorem head?_byteChars (text : List Char) :
    ((encode text).map byteChar).head?.isSome = text.head?.isSome ∧
      ∀ d, IsAscii d → (((encode text).map byteChar).head? = some d ↔ text.head? = some d) := by
  cases text with
  | nil => simp [encode_nil]
  | cons c text =>
    rw [encode_cons_append, List.map_append]
    by_cases hascii : IsAscii c
    · rw [map_byteChar_ascii hascii]
      simp
    · obtain ⟨b, bs, hbytes⟩ := exists_encode_eq c
      have hb : ¬ IsAscii (byteChar b) := not_isAscii_byteChar hascii (by simp [hbytes])
      rw [hbytes]
      simp only [List.map_cons, List.cons_append, List.head?_cons, Option.isSome_some, true_and, Option.some.injEq]
      intro d hd
      constructor
      · rintro rfl
        exact absurd hd hb
      · rintro rfl
        exact absurd hd hascii

/-! ## The class array -/

/-- The class of the byte at hand, the state behind it, and whether it takes the next byte along. -/
structure Step where
  zone : Zone
  after : Zone
  pair : Bool

def literalByteStep (zone : Zone) (quote : Char) (b : UInt8) (next : Option UInt8) : Step :=
  if byteChar b = '\\' ∧ next.isSome then ⟨zone, zone, true⟩
  else if byteChar b = quote ∨ byteChar b = '\n' then ⟨zone, .code, false⟩
  else ⟨zone, zone, false⟩

def byteStep : Zone → UInt8 → Option UInt8 → Step
  | .code, b, next =>
    if byteChar b = '/' ∧ next.map byteChar = some '/' then ⟨.lineComment, .lineComment, true⟩
    else if byteChar b = '/' ∧ next.map byteChar = some '*' then ⟨.blockComment, .blockComment, true⟩
    else if byteChar b = '"' then ⟨.string, .string, false⟩
    else if byteChar b = '\'' then ⟨.character, .character, false⟩
    else ⟨.code, .code, false⟩
  | .lineComment, b, _ =>
    if byteChar b = '\n' then ⟨.code, .code, false⟩ else ⟨.lineComment, .lineComment, false⟩
  | .blockComment, b, next =>
    if byteChar b = '*' ∧ next.map byteChar = some '/' then ⟨.blockComment, .code, true⟩
    else ⟨.blockComment, .blockComment, false⟩
  | .string, b, next => literalByteStep .string '"' b next
  | .character, b, next => literalByteStep .character '\'' b next

def classifyFrom (state : Zone) : Bytes → List Zone
  | [] => []
  | [b] => [(byteStep state b none).zone]
  | b :: next :: bs =>
    let step := byteStep state b (some next)
    if step.pair then step.zone :: step.zone :: classifyFrom step.after bs
    else step.zone :: classifyFrom step.after (next :: bs)

def classes (text : List Char) : List Zone := classifyFrom .code (encode text)

def classAt (classes : List Zone) (i : Nat) : Checked Zone :=
  match classes[i]? with
  | some zone => .ok zone
  | none => .error .index

/-! ## Steps of the lexer -/

/-- The zone of a step and the state behind it; the second byte of a pair is a step of its own. -/
def Step.result (step : Step) : Zone × LexState :=
  (step.zone, if step.pair then .second step.zone step.after else .inside step.after)

theorem literalStep_byteChar (zone : Zone) (quote : Char) (b : UInt8) (next : Option UInt8) :
    literalStep zone quote (byteChar b) (next.map byteChar) = (literalByteStep zone quote b next).result := by
  unfold literalStep literalByteStep
  rw [Option.isSome_map]
  split
  · rfl
  · split <;> rfl

theorem step_byteChar (zone : Zone) (b : UInt8) (next : Option UInt8) :
    (LexState.inside zone).step (byteChar b) (next.map byteChar) = (byteStep zone b next).result := by
  cases zone with
  | code =>
    simp only [LexState.step, byteStep]
    split
    · rfl
    · split
      · rfl
      · split
        · rfl
        · split <;> rfl
  | lineComment => simp only [LexState.step, byteStep]; split <;> rfl
  | blockComment => simp only [LexState.step, byteStep]; split <;> rfl
  | string => exact literalStep_byteChar _ _ _ _
  | character => exact literalStep_byteChar _ _ _ _

theorem classifyFrom_eq : ∀ (bytes : Bytes) (zone : Zone),
    classifyFrom zone bytes = (markFrom (.inside zone) (bytes.map byteChar)).map (·.2)
  | [], zone => rfl
  | [b], zone => by
    have hstep := step_byteChar zone b none
    simp only [Option.map_none] at hstep
    simp [classifyFrom, markFrom, hstep, Step.result]
  | b :: next :: bs, zone => by
    have hstep := step_byteChar zone b (some next)
    simp only [Option.map_some] at hstep
    simp only [classifyFrom, List.map_cons, markFrom, List.head?_cons, hstep, Step.result]
    by_cases hpair : (byteStep zone b (some next)).pair = true
    · simp only [hpair, if_true, LexState.step, classifyFrom_eq bs]
    · simp only [hpair, if_false, Bool.false_eq_true, classifyFrom_eq (next :: bs), List.map_cons, markFrom]

theorem length_classes (text : List Char) : (classes text).length = (encode text).length := by
  have hplain : plain (markFrom (.inside .code) ((encode text).map byteChar)) = (encode text).map byteChar :=
    plain_markFrom _ _
  have hlength := congrArg List.length hplain
  rw [plain, List.length_map, List.length_map] at hlength
  rw [classes, classifyFrom_eq, List.length_map, hlength]

theorem step_inside_of_not_isAscii {d : Char} (h : ¬ IsAscii d) (zone : Zone) (next : Option Char) :
    (LexState.inside zone).step d next = (zone, .inside zone) := by
  have hne {e : Char} (he : IsAscii e) : d ≠ e := fun hde => h (hde ▸ he)
  have slash := hne (show IsAscii '/' by decide)
  have star := hne (show IsAscii '*' by decide)
  have quote := hne (show IsAscii '"' by decide)
  have apostrophe := hne (show IsAscii '\'' by decide)
  have backslash := hne (show IsAscii '\\' by decide)
  have newline := hne (show IsAscii '\n' by decide)
  cases zone <;> simp [LexState.step, literalStep, slash, star, quote, apostrophe, backslash, newline]

theorem markFrom_of_not_isAscii (zone : Zone) {piece : List Char} (h : ∀ d ∈ piece, ¬ IsAscii d)
    (rest : List Char) : markFrom (.inside zone) (piece ++ rest) =
      piece.map (fun d => (d, zone)) ++ markFrom (.inside zone) rest := by
  induction piece with
  | nil => rfl
  | cons d piece ih =>
    have ih := ih fun e he => h e (List.mem_cons_of_mem _ he)
    rw [List.cons_append, markFrom, step_inside_of_not_isAscii (h d (by simp)), ih]
    rfl

/-- The step looks at the next character only for the second one of a pair. -/
theorem step_congr (s : LexState) (c : Char) {next next' : Option Char} (hsome : next'.isSome = next.isSome)
    (h : ∀ d, IsAscii d → (next' = some d ↔ next = some d)) : s.step c next' = s.step c next := by
  have slash := h '/' (by decide)
  have star := h '*' (by decide)
  cases s with
  | second => rfl
  | inside zone => cases zone <;> simp [LexState.step, literalStep, slash, star, hsome]

def Fits (s : LexState) (text : List Char) : Prop :=
  ∀ zone after, s = .second zone after → zone = after ∨ text.head? = some '/'

theorem fits_inside (zone : Zone) (text : List Char) : Fits (.inside zone) text := by
  intro zone' after h
  cases h

theorem fits_step (zone : Zone) (c : Char) (text : List Char) :
    Fits ((LexState.inside zone).step c text.head?).2 text := by
  intro zone' after h
  cases zone with
  | code =>
    simp only [LexState.step] at h
    repeat' split at h
    all_goals cases h
    all_goals exact .inl rfl
  | lineComment =>
    simp only [LexState.step] at h
    split at h <;> cases h
  | blockComment =>
    simp only [LexState.step] at h
    split at h
    · rename_i hpair
      exact .inr hpair.2
    · cases h
  | string | character =>
    simp only [LexState.step, literalStep] at h
    repeat' split at h
    all_goals cases h
    all_goals exact .inl rfl

/-! ## One class for the bytes of a character -/

def spread (m : Marked) : List Zone := List.replicate (width [m.1]) m.2

theorem length_spread (m : Marked) : (spread m).length = width [m.1] := List.length_replicate

theorem step_of_not_isAscii {c : Char} (h : ¬ IsAscii c) {s : LexState} {text : List Char} (hfits : Fits s (c :: text))
    (next : Option Char) : s.step c next = ((s.step c next).1, .inside (s.step c next).1) := by
  cases s with
  | inside zone => rw [step_inside_of_not_isAscii h]
  | second zone after =>
    rcases hfits zone after rfl with rfl | hslash
    · rfl
    · rw [List.head?_cons, Option.some.injEq] at hslash
      exact absurd (by rw [hslash]; decide) h

theorem markFrom_bytes_of_not_isAscii {c : Char} (h : ¬ IsAscii c) {s : LexState} {text : List Char}
    (hfits : Fits s (c :: text)) (next : Option Char) (rest : List Char) :
    markFrom s ((encode [c]).map byteChar ++ rest) =
      (encode [c]).map (fun b => (byteChar b, (s.step c next).1)) ++ markFrom (.inside (s.step c next).1) rest := by
  obtain ⟨b, bs, hbytes⟩ := exists_encode_eq c
  have hfirst (next' : Option Char) : s.step (byteChar b) next' = s.step c next := by
    cases s with
    | inside zone =>
      have hb : ¬ IsAscii (byteChar b) := not_isAscii_byteChar h (by simp [hbytes])
      rw [step_inside_of_not_isAscii h, step_inside_of_not_isAscii hb]
    | second zone after => rfl
  have htail : ∀ d ∈ bs.map byteChar, ¬ IsAscii d := by
    intro d hd
    obtain ⟨b', hb', rfl⟩ := List.mem_map.mp hd
    exact not_isAscii_byteChar h (by simp [hbytes, hb'])
  rw [hbytes, List.map_cons, List.cons_append, markFrom, hfirst, step_of_not_isAscii h hfits next,
    markFrom_of_not_isAscii _ htail, List.map_map]
  rfl

theorem map_markFrom_bytes : ∀ (text : List Char) (s : LexState), Fits s text →
    (markFrom s ((encode text).map byteChar)).map (·.2) = (markFrom s text).flatMap spread
  | [], s, _ => rfl
  | c :: text, s, hfits => by
    rw [encode_cons_append, List.map_append, markFrom, List.flatMap_cons]
    by_cases hascii : IsAscii c
    · obtain ⟨hsome, hnext⟩ := head?_byteChars text
      have hspread (zone : Zone) : spread (c, zone) = [zone] := by
        rw [spread, width_ascii hascii, List.replicate_one]
      have hrest : Fits (s.step c text.head?).2 text := by
        cases s with
        | second zone after => exact fits_inside after text
        | inside zone => exact fits_step zone c text
      rw [map_byteChar_ascii hascii, List.singleton_append, markFrom, step_congr s c hsome hnext, List.map_cons,
        map_markFrom_bytes text _ hrest, hspread]
      rfl
    · have hzones (zone : Zone) : ((encode [c]).map fun b => (byteChar b, zone)).map (·.2) = spread (c, zone) := by
        rw [List.map_map, spread, width]
        exact List.map_const'
      rw [markFrom_bytes_of_not_isAscii hascii hfits text.head?, List.map_append, hzones,
        map_markFrom_bytes text _ (fits_inside _ _)]
      congr 2
      exact congrArg (fun p => (markFrom p.2 text)) (step_of_not_isAscii hascii hfits text.head?).symm

theorem classes_eq (text : List Char) : classes text = (mark text).flatMap spread := by
  rw [classes, classifyFrom_eq, map_markFrom_bytes text _ (fits_inside _ _)]
  rfl

/-! ## Reading classes -/

/-- The classes from an offset on are those of marked characters. -/
def Aligned (classes : List Zone) (offset : Nat) (rest : List Marked) : Prop :=
  classes.drop offset = rest.flatMap spread

theorem length_flatMap_spread (marked : List Marked) : (marked.flatMap spread).length = width (plain marked) := by
  induction marked with
  | nil => rfl
  | cons m marked ih =>
    have hwidth : width (plain (m :: marked)) = width [m.1] + width (plain marked) := width_cons _ _
    rw [List.flatMap_cons, List.length_append, ih, length_spread, hwidth]

theorem aligned_classes {text : List Char} {passed rest : List Marked} (h : mark text = passed ++ rest) :
    Aligned (classes text) (width (plain passed)) rest := by
  rw [Aligned, classes_eq, h, List.flatMap_append]
  exact List.drop_left' (length_flatMap_spread passed)

theorem aligned_mark (text : List Char) : Aligned (classes text) 0 (mark text) :=
  aligned_classes (show mark text = [] ++ mark text from rfl)

section

variable {zones : List Zone} {offset : Nat} {m : Marked} {rest : List Marked}

theorem Aligned.append {passed : List Marked} (h : Aligned zones offset (passed ++ rest)) :
    Aligned zones (offset + width (plain passed)) rest := by
  rw [Aligned, ← List.drop_drop, h, List.flatMap_append]
  exact List.drop_left' (length_flatMap_spread passed)

theorem Aligned.tail (h : Aligned zones offset (m :: rest)) : Aligned zones (offset + width [m.1]) rest := by
  have h : Aligned zones offset ([m] ++ rest) := h
  exact h.append

theorem Aligned.classAt (h : Aligned zones offset (m :: rest)) {j : Nat} (hj : j < width [m.1]) :
    classAt zones (offset + j) = .ok m.2 := by
  have hread : zones[offset + j]? = some m.2 := by
    rw [← List.getElem?_drop, h, List.flatMap_cons, List.getElem?_append_left (by rwa [length_spread]), spread,
      List.getElem?_replicate, if_pos hj]
  rw [Bytewise.classAt, hread]

theorem Aligned.classAt_zero (h : Aligned zones offset (m :: rest)) : Bytewise.classAt zones offset = .ok m.2 :=
  h.classAt (width_pos _)

/-- A loop that goes from byte to byte passes a piece. -/
theorem pass_bytes {α : Type} (loop : Nat → Bytes → α) (rest : Bytes) : ∀ {piece : Bytes} {i : Nat},
    (∀ j < piece.length, ∀ b ∈ piece, ∀ bs, loop (i + j) (b :: bs) = loop (i + j + 1) bs) →
      loop i (piece ++ rest) = loop (i + piece.length) rest
  | [], _, _ => rfl
  | b :: piece, i, h => by
    have hfirst : loop i (b :: (piece ++ rest)) = loop (i + 1) (piece ++ rest) := h 0 (by simp) b (by simp) _
    have hpiece : ∀ j < piece.length, ∀ b ∈ piece, ∀ bs, loop (i + 1 + j) (b :: bs) =
        loop (i + 1 + j + 1) bs := by
      intro j hj b hb bs
      rw [Nat.add_assoc i, Nat.add_comm 1]
      exact h (j + 1) (by simpa using hj) b (List.mem_cons_of_mem _ hb) bs
    rw [List.cons_append, hfirst, pass_bytes loop rest hpiece, List.length_cons, Nat.add_assoc, Nat.add_comm 1]

theorem Aligned.pass {α : Type} (h : Aligned zones offset (m :: rest)) (loop : Nat → Bytes → α)
    (hstep : ∀ i, Bytewise.classAt zones i = .ok m.2 →
      ∀ b ∈ encode [m.1], ∀ bs, loop i (b :: bs) = loop (i + 1) bs)
    (bytes : Bytes) : loop offset (encode [m.1] ++ bytes) = loop (offset + width [m.1]) bytes :=
  pass_bytes loop bytes fun _ hj b hb bs => hstep _ (h.classAt hj) b hb bs

end

end FirmwareCatalog.Bytewise

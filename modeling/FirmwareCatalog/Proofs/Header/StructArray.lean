import FirmwareCatalog.Header.StructArray
import FirmwareCatalog.Proofs.Character.Blank
import FirmwareCatalog.Proofs.Header.Bracket
import FirmwareCatalog.Proofs.Header.Fence

/-!
# Cutting out elements

The source of an element, from the comment that announces its index on, is a
piece of the array body that reads as the same block wherever a body holds it.
-/

namespace FirmwareCatalog.Header

open Character Text

/-! ## Declarations -/

theorem taken_arrayTail? {cs rest : List Char} (h : arrayTail? cs = some rest) :
    Taken cs ('\x7b' :: rest) := by
  unfold arrayTail? at h
  simp only [Option.bind_eq_bind, Option.bind_eq_some_iff, text?_eq_some_iff] at h
  obtain ⟨cs₁, h₁, cs₂, h₂, cs₃, h₃, h₄⟩ := h
  have hopen : Taken cs ("[".toList ++ cs₁) := h₁ ▸ taken_skipBlanks cs
  have hclose : Taken cs₁ ("]".toList ++ cs₂) := h₂ ▸ taken_skipBlanks cs₁
  have hbrace : Taken cs₃ ('\x7b' :: rest) := by
    have := taken_skipBlanks cs₃
    rwa [h₄] at this
  have hqualifier :
      Taken cs₂ (((text? "PROGMEM" (skipBlanks cs₂)).map skipBlanks).getD (skipBlanks cs₂)) := by
    refine (taken_skipBlanks cs₂).trans ?_
    cases htext : text? "PROGMEM" (skipBlanks cs₂) with
    | none => exact ⟨[], rfl, fun c hc => absurd hc List.not_mem_nil⟩
    | some rest =>
      have htaken := taken_text (by decide : "PROGMEM".toList.all isHeadChar = true) rest
      exact (text?_eq_some_iff.mp htext ▸ htaken).trans (taken_skipBlanks rest)
  rw [h₃] at hqualifier
  exact hopen.trans ((taken_text (by decide) cs₁).trans
    (hclose.trans ((taken_text (by decide) cs₂).trans
    (hqualifier.trans ((taken_text (by decide) cs₃).trans hbrace)))))

section
variable {name : List Char} (hname : ∀ c ∈ name, isWord c = true)
include hname

theorem taken_nameAndTail? : ∀ {cs rest : List Char}, nameAndTail? name cs = some rest → Taken cs
    ('\x7b' :: rest)
  | [], _, h => by simp [nameAndTail?] at h
  | c :: cs, rest, h => by
    rw [nameAndTail?] at h
    split at h
    · rename_i hblank
      have hfirst : Taken (c :: cs) cs :=
        ⟨[c], rfl, fun d hd => by rw [List.mem_singleton.mp hd]; exact isHeadChar_of_isBlank hblank⟩
      refine hfirst.trans ?_
      cases hcs : nameAndTail? name cs with
      | some rest' =>
        rw [hcs] at h
        cases h
        exact taken_nameAndTail? hcs
      | none =>
        rw [hcs] at h
        obtain ⟨cs', hafter, htail⟩ := Option.bind_eq_some_iff.mp h
        have htaken : Taken cs cs' :=
          ⟨name, eq_append_of_after? hafter, fun c hc => isHeadChar_of_isWord (hname c hc)⟩
        exact htaken.trans (taken_arrayTail? htail)
    · cases h

theorem typeAndTail?_eq_some {cs elementType rest : List Char}
    (h : typeAndTail? name cs = some (elementType, rest)) :
    Taken cs ('\x7b' :: rest) ∧ elementType ≠ [] ∧ ∀ c ∈ elementType, isWord c = true := by
  unfold typeAndTail? at h
  simp only [Option.bind_eq_bind, Option.bind_eq_some_iff, Option.pure_def, Option.some.injEq,
    Prod.mk.injEq,
    Prod.exists] at h
  obtain ⟨word, cs₁, hword, rest', htail, rfl, rfl⟩ := h
  obtain ⟨-, hne, hchars, -⟩ := someOf?_eq_some hword
  exact ⟨(taken_word? hword).trans (taken_nameAndTail? hname htail), hne, hchars⟩

theorem arrayHead?_eq_some {before : Option Char} {text elementType rest : List Char}
    (h : arrayHead? name before text = some (elementType, rest)) :
    (∃ head, text = head ++ rest ∧ IsHead isHeadChar 's' '\x7b' head) ∧ elementType ≠ [] ∧
      ∀ c ∈ elementType, isWord c = true := by
  unfold arrayHead? at h
  simp only [Option.bind_eq_bind, Option.bind_eq_some_iff, text?_eq_some_iff,
    Option.orElse_eq_orElse, Option.orElse_eq_or,
    Option.or_eq_some_iff] at h
  obtain ⟨cs₁, rfl, cs₂, h₂, cs₃, rfl, cs₄, h₄, h⟩ := h
  have htype : Taken cs₄ ('\x7b' :: rest) ∧ elementType ≠ [] ∧ ∀ c ∈ elementType, isWord c = true := by
    rcases h with ⟨cs₅, rfl, cs₆, h₆, h⟩ | ⟨-, h⟩
    · obtain ⟨htaken, hne, hchars⟩ := typeAndTail?_eq_some hname h
      exact ⟨(taken_text (by decide) cs₅).trans ((taken_someBlanks? h₆).trans htaken),
        hne, hchars⟩
    · exact typeAndTail?_eq_some hname h
  obtain ⟨htail, hne, hchars⟩ := htype
  have hgap : Taken cs₁ ('\x7b' :: rest) :=
    (taken_someBlanks? h₂).trans ((taken_text (by decide) cs₃).trans
      ((taken_someBlanks? h₄).trans htail))
  obtain ⟨inner, rfl, hinner⟩ := hgap
  have hhead : ∀ c ∈ "static".toList ++ (inner ++ ['\x7b']), isHeadChar c = true := by
    intro c hc
    rcases List.mem_append.mp hc with hc | hc
    · exact List.all_eq_true.mp (by decide : "static".toList.all isHeadChar = true) c hc
    · rcases List.mem_append.mp hc with hc | hc
      · exact hinner c hc
      · rw [List.mem_singleton.mp hc]
        decide
  refine ⟨⟨"static".toList ++ (inner ++ ['\x7b']), by simp, rfl, ?_, hhead, hhead⟩, hne, hchars⟩
  rw [← List.append_assoc, List.getLast?_concat]

theorem readsHead_arrayHead? : ReadsHead (arrayHead? name) isHeadChar 's' '\x7b' :=
  fun _ _ _ _ h => (arrayHead?_eq_some hname h).1

end

/-! ## Written declarations -/

structure DeclarationBlanks where
  behindStatic : List Char
  behindConst : List Char
  behindQualifier : List Char
  behindType : List Char
  behindName : List Char
  inBrackets : List Char
  behindBrackets : List Char
  behindSign : List Char

namespace DeclarationBlanks

structure Lawful (blanks : DeclarationBlanks) : Prop where
  behindStatic : blanks.behindStatic ≠ [] ∧ ∀ c ∈ blanks.behindStatic, isBlank c = true
  behindConst : blanks.behindConst ≠ [] ∧ ∀ c ∈ blanks.behindConst, isBlank c = true
  behindQualifier : blanks.behindQualifier ≠ [] ∧ ∀ c ∈ blanks.behindQualifier, isBlank c = true
  behindType : blanks.behindType ≠ [] ∧ ∀ c ∈ blanks.behindType, isBlank c = true
  behindName : ∀ c ∈ blanks.behindName, isBlank c = true
  inBrackets : ∀ c ∈ blanks.inBrackets, isBlank c = true
  behindBrackets : ∀ c ∈ blanks.behindBrackets, isBlank c = true
  behindSign : ∀ c ∈ blanks.behindSign, isBlank c = true

variable (blanks : DeclarationBlanks)

def tail (rest : List Char) : List Char :=
  blanks.behindName ++ ("[".toList ++ (blanks.inBrackets ++ ("]".toList ++ (blanks.behindBrackets ++
    ("=".toList ++ (blanks.behindSign ++ ("\x7b".toList ++ rest)))))))

def declare (elementType name rest : List Char) : List Char :=
  "static".toList ++ (blanks.behindStatic ++ ("const".toList ++ (blanks.behindConst ++
    ("PROGMEM".toList ++ (blanks.behindQualifier ++ (elementType ++ (blanks.behindType ++
      (name ++ blanks.tail rest))))))))

theorem declare_append (elementType name a b : List Char) :
    blanks.declare elementType name (a ++ b) = blanks.declare elementType name a ++ b := by
  simp [declare, tail]

variable {blanks} (h : blanks.Lawful)
include h

theorem Lawful.arrayTail?_tail (rest : List Char) : arrayTail? (blanks.tail rest) = some rest := by
  have hsign : text? "PROGMEM" ("=".toList ++ (blanks.behindSign ++ ("\x7b".toList ++ rest))) = none := rfl
  unfold arrayTail? tail
  simp only [Option.bind_eq_bind]
  rw [text?_skipBlanks h.behindName (by decide), Option.bind_some,
    text?_skipBlanks h.inBrackets (by decide), Option.bind_some,
    skipBlanks_append h.behindBrackets (stopsAt_text (by decide) _), hsign, Option.map_none,
    Option.getD_none, text?_append, Option.bind_some, text?_skipBlanks h.behindSign (by decide)]

theorem Lawful.nameAndTail?_name {name : List Char} (hname : ∀ c ∈ name, isWord c = true) (hne : name ≠ [])
    (rest : List Char) :
    nameAndTail? name (blanks.behindType ++ (name ++ blanks.tail rest)) = some rest := by
  have hnone (tail : List Char) : nameAndTail? name (name ++ tail) = none := by
    cases name with
    | nil => exact absurd rfl hne
    | cons c name => rw [List.cons_append, nameAndTail?,
        isBlank_eq_false_of_isWord (hname c List.mem_cons_self)]; rfl
  -- the longest run of blanks that leaves the name is the whole run
  have hrun (run : List Char) (hrun : ∀ c ∈ run, isBlank c = true) :
      nameAndTail? name (run ++ (name ++ blanks.tail rest)) = if run = [] then none else some rest := by
    induction run with
    | nil => exact hnone _
    | cons c run ih =>
      obtain ⟨hc, hrun⟩ := List.forall_mem_cons.mp hrun
      rw [List.cons_append, nameAndTail?, if_pos hc, ih hrun]
      by_cases hnil : run = []
      · subst hnil
        simp only [if_true, List.nil_append]
        rw [after?_append, Option.bind_some, h.arrayTail?_tail]
        rfl
      · simp [hnil]
  rw [hrun _ h.behindType.2, if_neg h.behindType.1]

theorem Lawful.arrayHead?_declare {elementType name : List Char} (htype : ∀ c ∈ elementType, isWord c = true)
    (htypeNe : elementType ≠ []) (hname : ∀ c ∈ name, isWord c = true) (hne : name ≠ [])
    (before : Option Char) (rest : List Char) :
    arrayHead? name before (blanks.declare elementType name rest) = some (elementType, rest) := by
  have hstop : StopsAt isWord (blanks.behindType ++ (name ++ blanks.tail rest)) :=
    StopsAt.append h.behindType.1
      (fun c hc => isWord_eq_false_of_isBlank (h.behindType.2 c (List.mem_of_head? hc))) _
  have hword : word? (elementType ++ (blanks.behindType ++ (name ++ blanks.tail rest))) =
      some (elementType, _) := someOf?_append htype hstop htypeNe
  have htail : typeAndTail? name (elementType ++ (blanks.behindType ++ (name ++ blanks.tail rest))) =
      some (elementType, rest) := by
    unfold typeAndTail?
    simp only [hword, Option.bind_eq_bind, Option.bind_some, h.nameAndTail?_name hname hne,
      Option.pure_def]
  have hbare : StopsAt isBlank (elementType ++ (blanks.behindType ++ (name ++ blanks.tail rest))) := by
    refine StopsAt.append htypeNe (fun c hc => ?_) _
    exact isBlank_eq_false_of_isWord (htype c (List.mem_of_head? hc))
  unfold arrayHead? declare
  simp only [Option.bind_eq_bind, text?_append, Option.bind_some]
  rw [someBlanks?_text h.behindStatic.2 (by decide) _ h.behindStatic.1, Option.bind_some,
    text?_append, Option.bind_some,
    someBlanks?_text h.behindConst.2 (by decide) _ h.behindConst.1, Option.bind_some,
    text?_append, Option.bind_some,
    someBlanks?_append h.behindQualifier.1 h.behindQualifier.2 hbare, Option.bind_some, htail]
  rfl

end DeclarationBlanks

def declaration (elementType name : List Char) : List Char :=
  "static const PROGMEM ".toList ++ (elementType ++ (" ".toList ++ (name ++ "[] = \x7b".toList)))

def DeclarationBlanks.oneLine : DeclarationBlanks := ⟨[' '], [' '], [' '], [' '], [], [], [' '], [' ']⟩

theorem DeclarationBlanks.lawful_oneLine : DeclarationBlanks.oneLine.Lawful := by
  have hspace : [' '] ≠ [] ∧ ∀ c ∈ [' '], isBlank c = true := by decide
  exact ⟨hspace, hspace, hspace, hspace, isBlank_of_mem_nil, isBlank_of_mem_nil, hspace.2, hspace.2⟩

theorem arrayHead?_declaration {elementType name : List Char}
    (htype : ∀ c ∈ elementType, isWord c = true)
    (htypeNe : elementType ≠ []) (hname : ∀ c ∈ name, isWord c = true) (hne : name ≠ [])
    (before : Option Char)
    (rest : List Char) : arrayHead? name before (declaration elementType name ++ rest) =
      some (elementType, rest) := by
  have htext : declaration elementType name ++ rest =
      DeclarationBlanks.oneLine.declare elementType name rest := by
    unfold declaration DeclarationBlanks.declare DeclarationBlanks.tail DeclarationBlanks.oneLine
    simp
  rw [htext]
  exact DeclarationBlanks.lawful_oneLine.arrayHead?_declare htype htypeNe hname hne before rest

def arrayAt? (marked : List Marked) (m : Match (List Char)) : Option StructArray :=
  if zoneAt? marked m.start = some .code then
    (bracketed? '\x7b' '\x7d' marked (m.stop - 1)).map fun (body, _) => ⟨m.value, plain body⟩
  else none

theorem structArray?_eq_findSome? (name text : List Char) :
    structArray? name text = (scan (arrayHead? name) text).findSome? (arrayAt? (mark text)) := rfl

section
variable {name : List Char} (hname : ∀ c ∈ name, isWord c = true)
include hname

theorem structArray?_eq_some {text : List Char} {array : StructArray}
    (h : structArray? name text = some array) :
    (∃ x body rest, mark text = x ++ body ++ ('\x7d', .code) :: rest ∧ array.body = plain body ∧
      mark (plain body) = body ∧
      splitClosing '\x7b' '\x7d' 1 (body ++ ('\x7d', .code) :: rest) = some (body, rest)) ∧
    array.elementType ≠ [] ∧ ∀ c ∈ array.elementType, isWord c = true := by
  rw [structArray?_eq_findSome?] at h
  obtain ⟨m, hm, hf⟩ := List.exists_of_findSome?_eq_some h
  rw [arrayAt?] at hf
  split at hf
  · rename_i hcode
    obtain ⟨⟨body, rest⟩, hbracket, hvalue⟩ := Option.map_eq_some_iff.mp hf
    subst hvalue
    obtain ⟨a, b, htext, hstart, hread⟩ :=
      exists_of_mem_scanFrom (readsHead_arrayHead? hname).consumes hm
    obtain ⟨⟨head, hhead, hisHead⟩, hne, hchars⟩ := arrayHead?_eq_some hname hread
    have hmtext : m.text = head := List.append_cancel_right hhead
    rw [Nat.zero_add] at hstart
    obtain ⟨x, y, hmark, hx, hy, hycode⟩ := exists_cut_of_zoneAt? htext hstart hcode
    have hlength : m.stop - 1 = x.length + head.length - 1 := by
      rw [Match.stop, hmtext, hstart, ← hx, length_plain]
    have hyhead := hisHead.eq_inZone hmark hycode (hmtext ▸ hy)
    rw [hmark, hyhead, bracketed?_head hisHead hlength] at hbracket
    have hsplit := eq_append_of_splitClosing (by decide) hbracket
    have hrest : mark b = body ++ ('\x7d', .code) :: rest := hsplit
    refine ⟨⟨x ++ inZone .code head, body, rest, ?_, rfl, ?_, by rw [← hsplit, hbracket]⟩, hne, hchars⟩
    · rw [hmark, hyhead, hsplit]
      simp
    · exact mark_plain_of_mark (by decide) (by decide) hrest
  · cases hf

theorem isHead_of_arrayHead? {elementType head : List Char}
    (h : arrayHead? name none (head ++ []) = some (elementType, [])) : IsHead isHeadChar 's' '\x7b' head := by
  obtain ⟨⟨head', htext, hhead⟩, -⟩ := arrayHead?_eq_some hname h
  rwa [List.append_cancel_right htext]

theorem isHead_declaration {elementType : List Char} (htype : ∀ c ∈ elementType, isWord c = true)
    (htypeNe : elementType ≠ [])
    (hne : name ≠ []) : IsHead isHeadChar 's' '\x7b' (declaration elementType name) :=
  isHead_of_arrayHead? hname (arrayHead?_declaration htype htypeNe hname hne none [])

omit hname in
theorem arrayAt?_front_eq_none {front behindHead : List Marked} {m : Match (List Char)}
    (hfront : Unread (arrayHead? name) front)
    (hm : ∃ x y rest, plain front = x ++ y ∧ y ≠ [] ∧ m.start = 0 + x.length ∧
      arrayHead? name (behind none x) (y ++ plain behindHead) = some (m.value, rest)) :
    arrayAt? (front ++ behindHead) m = none := by
  refine if_neg fun hcode => ?_
  obtain ⟨x, y, rest, hsplit, hy, hstart, hread⟩ := hm
  rw [Nat.zero_add] at hstart
  obtain ⟨x', y', rfl, hx', hy'⟩ := exists_append_of_plain hsplit
  cases y' with
  | nil => exact hy hy'.symm
  | cons m' y' =>
    obtain ⟨c, zone⟩ := m'
    rw [List.append_assoc, zoneAt?_append (by rw [hstart, ← hx', length_plain])] at hcode
    simp only [List.cons_append, List.head?_cons, Option.map_some, Option.some.injEq] at hcode
    subst hcode
    have hnone := hfront rfl (behind none x) (plain behindHead)
    rw [← plain_cons (c, .code), hy', hread] at hnone
    cases hnone

/-- An array is found where nothing before its head reads as one. -/
theorem structArray?_of_head {elementType head : List Char}
    (hhead : ∀ before rest, arrayHead? name before (head ++ rest) = some (elementType, rest))
    {text : List Char} {front body rest : List Marked}
    (hmark : mark text = front ++ (inZone .code head ++ (body ++ ('\x7d', .code) :: rest)))
    (hfront : Unread (arrayHead? name) front) (hfenced : front ≠ [] → Fenced isHeadChar 's' (plain front))
    (hbody : splitClosing '\x7b' '\x7d' 1 (body ++ ('\x7d', .code) :: rest) = some (body, rest)) :
    structArray? name text = some ⟨elementType, plain body⟩ := by
  have hreads := readsHead_arrayHead? hname
  have hisHead := isHead_of_arrayHead? hname (hhead none [])
  generalize hb : body ++ ('\x7d', Zone.code) :: rest = behindHead at hmark hbody
  have htext : text = plain front ++ (head ++ plain behindHead) := by
    rw [← plain_mark text, hmark]
    simp
  have hnil : head ≠ [] := by
    rintro rfl
    cases hisHead.first
  -- no match that begins before the head reaches it, since the front is fenced
  have hinside (x y : List Char) (value rest' : List Char) (hsplit : plain front = x ++ y) (hy : y ≠ [])
      (hread : arrayHead? name (behind none x) (y ++ (head ++ plain behindHead)) = some (value, rest')) :
      ∃ taken r, y = taken ++ r ∧ rest' = r ++ (head ++ plain behindHead) := by
    have hne : front ≠ [] := by
      rintro rfl
      exact hy (List.append_eq_nil_iff.mp hsplit.symm).2
    obtain ⟨taken, r, hyr, hrest, -⟩ := hreads.inside (hfenced hne) hsplit hy hread
    exact ⟨taken, r, hyr, hrest⟩
  obtain ⟨found, hscan, hfound⟩ := scanFrom_append hreads.consumes 0 none hinside
  have hmatch := scanFrom_match (0 + (plain front).length) hnil
    (hhead (behind none (plain front)) (plain behindHead))
  have hlength := length_plain front
  have hnone : found.findSome? (arrayAt? (mark text)) = none := by
    have hplain : plain (inZone .code head ++ behindHead) = head ++ plain behindHead := by simp
    rw [hmark]
    rw [← hplain] at hfound
    exact List.findSome?_eq_none_iff.mpr fun m hm => arrayAt?_front_eq_none hfront (hfound m hm)
  have hcode : zoneAt? (mark text) (0 + (plain front).length) = some .code := by
    rw [hmark, zoneAt?_append (by rw [hlength, Nat.zero_add]), List.head?_append, inZone,
      List.head?_map, hisHead.first]
    rfl
  have hat : arrayAt? (mark text) ⟨0 + (plain front).length, elementType, head⟩ =
      some ⟨elementType, plain body⟩ := by
    rw [arrayAt?, if_pos hcode, hmark,
      bracketed?_head hisHead (by rw [Match.stop, hlength, Nat.zero_add]), hbody]
    rfl
  rw [structArray?_eq_findSome?, show scan (arrayHead? name) text = _ from htext ▸ hscan, hmatch,
    List.findSome?_append,
    hnone, List.findSome?_cons, hat]
  rfl

theorem structArray?_of_declaration (hne : name ≠ []) {elementType : List Char}
    (htype : ∀ c ∈ elementType, isWord c = true)
    (htypeNe : elementType ≠ []) {text : List Char} {front body rest : List Marked}
    (hmark : mark text = front ++ (inZone .code (declaration elementType name) ++
      (body ++ ('\x7d', .code) :: rest)))
    (hfront : Unread (arrayHead? name) front) (hfenced : Fenced isHeadChar 's' (plain front))
    (hbody : splitClosing '\x7b' '\x7d' 1 (body ++ ('\x7d', .code) :: rest) = some (body, rest)) :
    structArray? name text = some ⟨elementType, plain body⟩ :=
  structArray?_of_head hname (arrayHead?_declaration htype htypeNe hname hne) hmark hfront
    (fun _ => hfenced) hbody

end

end FirmwareCatalog.Header

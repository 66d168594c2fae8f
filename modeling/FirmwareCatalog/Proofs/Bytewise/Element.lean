import FirmwareCatalog.Proofs.Bytewise.Comment
import FirmwareCatalog.Proofs.Bytewise.Nesting
import FirmwareCatalog.Proofs.Header.Element

/-!
# Array elements by byte offsets

The reading of an array body keeps two offsets besides its own: where the
comment began that announced an index, and where the element at hand ends.
-/

namespace FirmwareCatalog.Bytewise

open Header Utf8

/-! ## Comments -/

def commentEnd (zones : List Zone) : (i : Nat) → Bytes → Checked Nat
  | i, [] => return i
  | i, _ :: bs => do
    if (← classAt zones i).isComment then commentEnd zones (i + 1) bs else return i

theorem commentEnd_eq {zones : List Zone} {after : List Marked} (hafter : ∀ m ∈ after.head?, m.2.isComment = false)
    (run : List Marked) : ∀ {i : Nat}, (∀ m ∈ run, m.2.isComment = true) → Aligned zones i (run ++ after) →
      commentEnd zones i (encode (plain run ++ plain after)) = .ok (i + width (plain run)) := by
  induction run with
  | nil =>
    intro i _ haligned
    cases after with
    | nil => rfl
    | cons m after =>
      obtain ⟨b, bs, hbytes⟩ := exists_encode_eq m.1
      have hcomment : m.2.isComment = false := hafter m rfl
      have hclass : classAt zones i = .ok m.2 := haligned.classAt_zero
      rw [plain_nil, List.nil_append, plain_cons, encode_cons_append, hbytes, List.cons_append, commentEnd, hclass,
        ok_bind, if_neg (by simp [hcomment])]
      rfl
  | cons m run ih =>
    intro i hrun haligned
    obtain ⟨hcomment, hrun⟩ := List.forall_mem_cons.mp hrun
    have hpass : commentEnd zones i (encode [m.1] ++ encode (plain run ++ plain after)) =
        commentEnd zones (i + width [m.1]) (encode (plain run ++ plain after)) := by
      refine haligned.pass (commentEnd zones) ?_ _
      intro i hread b _ bs
      rw [commentEnd, hread, ok_bind, if_pos hcomment]
    rw [plain_cons, List.cons_append, encode_cons_append, hpass, ih hrun haligned.tail, width_cons m.1 (plain run),
      Nat.add_assoc]

/-! ## Elements -/

def designatedFields (inner : List Char) : Checked (List (String × String)) := do
  let code ← stripComments inner
  let parts ← splitTopLevel code
  return parts.filterMap designatedField?

theorem designatedFields_eq (inner : List Char) :
    designatedFields inner = .ok (Header.designatedFields inner) := by
  rw [designatedFields, stripComments_eq, ok_bind, splitTopLevel_eq]
  rfl

/-- The blocks of a body from its byte at `i` on, with `skip` bytes to pass before; an announced index comes
with the offset of its comment. -/
def elementsFrom (body : List Char) (zones : List Zone) :
    (pending : Option (Nat × Nat)) → (i skip : Nat) → Bytes →
    Checked (List RawBlock)
  | _, _, _, [] => return []
  | pending, i, skip + 1, _ :: bs => elementsFrom body zones pending (i + 1) skip bs
  | pending, i, 0, b :: bs => do
    let zone ← classAt zones i
    if zone.isComment then
      let stop ← commentEnd zones i (b :: bs)
      let comment ← slice body i stop
      let pending := ((announcedIndex? comment).map fun index => (index, i)).or pending
      elementsFrom body zones pending (i + 1) (stop - i - 1) bs
    else if zone = .code ∧ byteChar b = '\x7b' then
      match ← matchingClose zones '\x7b' '\x7d' i 0 (b :: bs) with
      | none => return []
      | some close =>
        let raw ← slice body ((pending.map (·.2)).getD i) (close + 1)
        let inner ← slice body (i + 1) close
        let fields ← designatedFields inner
        let blocks ← elementsFrom body zones none (i + 1) (close - i) bs
        return ⟨pending.map (·.1), String.ofList raw, fields, .structLiteral⟩ :: blocks
    else elementsFrom body zones pending (i + 1) 0 bs

def arrayElements (body : List Char) : Checked (List RawBlock) :=
  elementsFrom body (classes body) none 0 0 (encode body)

section

variable {body : List Char} {zones : List Zone} {pending : Option (Nat × Nat)} {i : Nat}

theorem elementsFrom_skip (bytes : Bytes) : ∀ (piece : Bytes) (i : Nat),
    elementsFrom body zones pending i piece.length (piece ++ bytes) =
      elementsFrom body zones pending (i + piece.length) 0 bytes
  | [], _ => rfl
  | b :: piece, i => by
    rw [List.length_cons, List.cons_append, elementsFrom, elementsFrom_skip bytes piece, Nat.add_assoc, Nat.add_comm 1]

theorem elementsFrom_other {m : Marked} {rest : List Marked} (haligned : Aligned zones i (m :: rest))
    (hcomment : m.2.isComment = false) (hopen : m ≠ ('\x7b', .code)) (bytes : Bytes) :
    elementsFrom body zones pending i 0 (encode [m.1] ++ bytes) =
      elementsFrom body zones pending (i + width [m.1]) 0 bytes := by
  refine haligned.pass (fun i bytes => elementsFrom body zones pending i 0 bytes) ?_ bytes
  intro i hread b hb bs
  have hbrace : ¬ (m.2 = .code ∧ byteChar b = '\x7b') := by
    intro h
    have hc : m.1 ≠ '\x7b' := fun hc => hopen (Prod.ext hc h.1)
    exact byteChar_ne_of_mem (by decide) hc hb h.2
  rw [elementsFrom, hread, ok_bind, if_neg (by simp [hcomment]), if_neg hbrace]

theorem elementsFrom_comment {done : List Char} {run after : List Marked}
    (hbody : body = done ++ (plain run ++ plain after)) (haligned : Aligned zones (width done) (run ++ after))
    (hne : run ≠ []) (hrun : ∀ m ∈ run, m.2.isComment = true)
    (hafter : ∀ m ∈ after.head?, m.2.isComment = false) :
    elementsFrom body zones pending (width done) 0 (encode (plain run ++ plain after)) =
      elementsFrom body zones (((announcedIndex? (plain run)).map fun index => (index, width done)).or pending)
        (width done + width (plain run)) 0 (encode (plain after)) := by
  have hend := commentEnd_eq hafter run hrun haligned
  have hslice : slice body (width done) (width done + width (plain run)) = .ok (plain run) := by
    rw [hbody]
    exact slice_append done (plain run) _
  have hclass : ∃ zone, classAt zones (width done) = .ok zone ∧ zone.isComment = true := by
    obtain ⟨m, run, rfl⟩ := List.exists_cons_of_ne_nil hne
    exact ⟨m.2, haligned.classAt_zero, hrun m List.mem_cons_self⟩
  obtain ⟨zone, hclass, hzone⟩ := hclass
  obtain ⟨b, bs, hbytes⟩ := List.exists_cons_of_ne_nil (encode_ne_nil (mt List.map_eq_nil_iff.mp hne))
  have hwidth : width (plain run) = bs.length + 1 := by
    rw [width]
    exact congrArg List.length hbytes
  have hskip : width done + width (plain run) - width done - 1 = bs.length := by omega
  rw [encode_append] at hend ⊢
  rw [show encode (plain run) = b :: bs from hbytes, List.cons_append] at hend ⊢
  rw [elementsFrom, hclass, ok_bind, if_pos hzone, hend, ok_bind, hslice, ok_bind, hskip, elementsFrom_skip, hwidth,
    Nat.add_assoc, Nat.add_comm 1]

theorem elementsFrom_element (done lead : List Char) {inner rest : List Marked}
    (hbody : body = done ++ (lead ++ '\x7b' :: (plain inner ++ '\x7d' :: plain rest)))
    (haligned : Aligned zones (width done + width lead) (('\x7b', .code) :: (inner ++ ('\x7d', .code) :: rest)))
    (hclose : splitClosing '\x7b' '\x7d' 1 (inner ++ ('\x7d', .code) :: rest) = some (inner, rest))
    (hstart : (pending.map (·.2)).getD (width done + width lead) = width done) {blocks : List RawBlock}
    (hblocks : elementsFrom body zones none (width (done ++ (lead ++ '\x7b' :: (plain inner ++ ['\x7d'])))) 0
      (encode (plain rest)) = .ok blocks) :
    elementsFrom body zones pending (width done + width lead) 0
        (encode ('\x7b' :: (plain inner ++ '\x7d' :: plain rest))) =
      .ok (elementBlock (pending.map (·.1)) lead (plain inner) :: blocks) := by
  have hopener : IsAscii '\x7b' := by decide
  have hcloser : IsAscii '\x7d' := by decide
  have hmatch := matchingClose_open hopener hcloser (by decide) haligned
  rw [plain_append, plain_cons, hclose, Option.map_some, encode_cons_ascii hopener] at hmatch
  have hraw : slice body (width done) (width done + width lead + 1 + width (plain inner) + 1) =
      .ok (lead ++ '\x7b' :: (plain inner ++ ['\x7d'])) := by
    have h := slice_append done (lead ++ '\x7b' :: (plain inner ++ ['\x7d'])) (plain rest)
    have hpiece : done ++ (lead ++ '\x7b' :: (plain inner ++ ['\x7d']) ++ plain rest) = body := by simp [hbody]
    rw [hpiece, width_append, width_cons_ascii hopener, width_append, width_ascii hcloser] at h
    rw [← h]
    congr 1
    omega
  have hinner : slice body (width done + width lead + 1) (width done + width lead + 1 + width (plain inner)) =
      .ok (plain inner) := by
    have h := slice_append (done ++ (lead ++ ['\x7b'])) (plain inner) ('\x7d' :: plain rest)
    have hpiece : done ++ (lead ++ ['\x7b']) ++ (plain inner ++ '\x7d' :: plain rest) = body := by simp [hbody]
    rwa [hpiece, width_append, width_append, width_ascii hopener, ← Nat.add_assoc] at h
  -- the rest of the element is passed byte by byte
  have hskip : elementsFrom body zones none (width done + width lead + 1) (width (plain inner) + 1)
      (encode (plain inner ++ '\x7d' :: plain rest)) = .ok blocks := by
    have hpiece : plain inner ++ '\x7d' :: plain rest = plain inner ++ ['\x7d'] ++ plain rest := by simp
    have hwidth : (encode (plain inner ++ ['\x7d'])).length = width (plain inner) + 1 := by
      rw [← width, width_append, width_ascii hcloser]
    have h : elementsFrom body zones none (width done + width lead + 1) (encode (plain inner ++ ['\x7d'])).length
        (encode (plain inner ++ ['\x7d']) ++ encode (plain rest)) = _ := elementsFrom_skip _ _ _
    have hplace : width (done ++ (lead ++ '\x7b' :: (plain inner ++ ['\x7d']))) =
        width done + width lead + 1 + (width (plain inner) + 1) := by
      rw [width_append, width_append, width_cons_ascii hopener, width_append, width_ascii hcloser]
      omega
    rw [hplace] at hblocks
    rw [← encode_append, ← hpiece, hwidth, hblocks] at h
    exact h
  have hclosed : width done + width lead + 1 + width (plain inner) - (width done + width lead) =
      width (plain inner) + 1 := by omega
  rw [encode_cons_ascii hopener, elementsFrom, haligned.classAt_zero, ok_bind, if_neg (by decide),
    if_pos ⟨rfl, byteChar_byte hopener⟩, hmatch, ok_bind]
  simp only
  rw [hstart, hraw, ok_bind, hinner, ok_bind, designatedFields_eq, ok_bind, hclosed, hskip, ok_bind, pure_eq_ok,
    elementBlock]
  simp

theorem elementsFrom_unclosed {rest : List Marked} (haligned : Aligned zones i (('\x7b', .code) :: rest))
    (hclose : splitClosing '\x7b' '\x7d' 1 rest = none) :
    elementsFrom body zones pending i 0 (encode ('\x7b' :: plain rest)) = .ok [] := by
  have hopener : IsAscii '\x7b' := by decide
  have hmatch := matchingClose_open hopener (by decide : IsAscii '\x7d') (by decide) haligned
  rw [hclose, Option.map_none, encode_cons_ascii hopener] at hmatch
  rw [encode_cons_ascii hopener, elementsFrom, haligned.classAt_zero, ok_bind, if_neg (by decide),
    if_pos ⟨rfl, byteChar_byte hopener⟩, hmatch, ok_bind]
  rfl

/-- The announced index and the text since its comment are those that the pieces have. -/
theorem elementsFrom_eq (rest : List Marked) : ∀ (done lead : List Char) (index : Option Nat),
    body = done ++ (lead ++ plain rest) → Aligned zones (width done + width lead) rest →
      elementsFrom body zones (index.map (·, width done)) (width done + width lead) 0 (encode (plain rest)) =
        .ok (blocksFrom (index.map (·, lead)) (pieces rest)) := by
  induction rest using pieces_induction with
  | nil =>
    intro _ _ _ _ _
    rw [pieces, blocksFrom]
    rfl
  | comment run after hne hrun hapart ih =>
    intro done lead index hbody haligned
    have hwidth : width (done ++ lead) = width done + width lead := width_append done lead
    rw [plain_append, ← List.append_assoc] at hbody
    rw [← hwidth] at haligned ⊢
    rw [plain_append, elementsFrom_comment hbody haligned hne hrun (hapart.head hne hrun),
      pieces_comment hne hrun hapart, blocksFrom]
    have htail := haligned.append
    cases hindex : announcedIndex? (plain run) with
    | some announced => exact ih (done ++ lead) (plain run) (some announced) hbody htail
    | none =>
      rw [hwidth, add_width_append] at htail ⊢
      have hrest := ih done (lead ++ plain run) index (by simp [hbody]) htail
      cases index <;> exact hrest
  | unclosed rest hclose =>
    intro _ _ index _ haligned
    rw [pieces_unclosed hclose, plain_cons, elementsFrom_unclosed haligned hclose]
    cases index <;> rfl
  | element inner rest hclose ih =>
    intro done lead index hbody haligned
    rw [braced_append] at hbody haligned ⊢
    have hsplit : ('\x7b', Zone.code) :: (inner ++ ('\x7d', .code) :: rest) =
        ('\x7b', .code) :: (inner ++ [('\x7d', .code)]) ++ rest := by simp
    have htail : Aligned zones (width (done ++ (lead ++ '\x7b' :: (plain inner ++ ['\x7d'])))) rest := by
      rw [width_append, width_append, ← Nat.add_assoc]
      have haligned := haligned
      rw [hsplit] at haligned
      have := haligned.append
      rwa [plain_cons, plain_append] at this
    rw [plain_cons, plain_append, plain_cons] at hbody ⊢
    have hblocks := ih (done ++ (lead ++ '\x7b' :: (plain inner ++ ['\x7d']))) [] none (by simp [hbody]) htail
    rw [pieces_element hclose]
    cases index with
    | some index => exact elementsFrom_element done lead hbody haligned hclose rfl hblocks
    | none =>
      -- without an announcement the source begins with the brace
      have hwidth : width done + width lead = width (done ++ lead) + width [] := (width_append done lead).symm
      rw [hwidth] at haligned ⊢
      rw [← List.append_assoc] at hblocks
      exact elementsFrom_element (done ++ lead) [] (by simp [hbody]) haligned hclose rfl hblocks
  | other m rest hcomment hopen ih =>
    intro done lead index hbody haligned
    have htail := haligned.tail
    rw [add_width_append] at htail
    have hrest := ih done (lead ++ [m.1]) index (by simp [hbody]) htail
    rw [plain_cons, encode_cons_append, elementsFrom_other haligned hcomment hopen, add_width_append, hrest,
      pieces_other hcomment hopen, blocksFrom]
    cases index <;> rfl

theorem arrayElements_eq (body : List Char) : arrayElements body = .ok (Header.arrayElements body) := by
  have h := elementsFrom_eq (mark body) [] [] none (plain_mark body).symm (aligned_mark body)
  rwa [plain_mark] at h

end

end FirmwareCatalog.Bytewise

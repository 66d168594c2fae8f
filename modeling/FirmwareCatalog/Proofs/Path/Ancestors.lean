import FirmwareCatalog.Proofs.Path.Segments
import Mathlib.Data.List.DropRight
import Mathlib.Data.List.Infix

/-!
# Ancestors of paths

The parent of a relative path goes through all of its parts but the last. So its
ancestors go through the beginnings of its parts, the longest first, whether a
part is a name or leads up.
-/

namespace FirmwareCatalog.Path

theorem joinSegments_append : ∀ {a b : List (List Char)}, a ≠ [] → b ≠ [] →
    joinSegments (a ++ b) = joinSegments a ++ '/' :: joinSegments b
  | [], _, h, _ => absurd rfl h
  | [s], b, _, hb => by
    obtain ⟨t, rest, rfl⟩ := List.exists_cons_of_ne_nil hb
    rfl
  | s :: t :: rest, b, _, hb => by
    have ih : joinSegments ((t :: rest) ++ b) = joinSegments (t :: rest) ++ '/' :: joinSegments b :=
      joinSegments_append (List.cons_ne_nil t rest) hb
    rw [List.cons_append] at ih ⊢
    simp [joinSegments, ih]

/-! ## Idle ends -/

theorem exists_dropIdleEnd (ss : List (List Char)) :
    ∃ idles, ss = dropIdleEnd ss ++ idles ∧ ∀ s ∈ idles, isIdle s = true := by
  refine ⟨(ss.reverse.takeWhile isIdle).reverse, ?_, ?_⟩
  · rw [dropIdleEnd, ← List.reverse_append, List.takeWhile_append_dropWhile, List.reverse_reverse]
  · intro s hs
    exact List.mem_takeWhile_imp (List.mem_reverse.mp hs)

theorem filterMap_dropIdleEnd (ss : List (List Char)) :
    (dropIdleEnd ss).filterMap partOfSegment? = ss.filterMap partOfSegment? := by
  obtain ⟨idles, hss, hidles⟩ := exists_dropIdleEnd ss
  have hnone : idles.filterMap partOfSegment? = [] := by
    rw [List.filterMap_eq_nil_iff]
    intro s hs
    exact partOfSegment?_of_isIdle (hidles s hs)
  conv_rhs => rw [hss, List.filterMap_append, hnone, List.append_nil]

theorem isIdle_getLast_dropIdleEnd (ss : List (List Char)) : ∀ s ∈ (dropIdleEnd ss).getLast?, isIdle s = false := by
  intro s hs
  obtain ⟨hne, rfl⟩ := List.mem_getLast?_eq_getLast hs
  have notIdle : ¬ isIdle ((dropIdleEnd ss).getLast hne) = true := List.rdropWhile_last_not isIdle ss hne
  simpa using notIdle

theorem exists_partOfSegment? {segment : List Char} (h : isIdle segment = false) :
    ∃ part, partOfSegment? segment = some part := by
  unfold partOfSegment?
  rw [if_neg (by simp [h])]
  split
  · exact ⟨_, rfl⟩
  · exact ⟨_, rfl⟩

/-! ## Starts -/

/-- A dot and what stands behind it, or the text of a path that starts with neither a dot nor a slash. -/
inductive Starts : (head body : List Char) → Prop
  | dot : Starts ['.'] []
  | dotSlash (rest : List Char) : Starts ['.'] ('/' :: rest)
  | plain {body : List Char} (relative : body.head? ≠ some '/') (notDot : (segments body).head? ≠ some ['.']) :
      Starts [] body

def startOf (head : List Char) : List Part := if head = ['.'] then [.current] else []

theorem exists_starts {path : Path} (h : path.isAbsolute = false) :
    ∃ head body, Starts head body ∧ path.text.toList = head ++ body := by
  have relative : path.text.toList.head? ≠ some '/' := by simpa [isAbsolute] using h
  by_cases dot : (segments path.text.toList).head? = some ['.']
  · obtain htext | ⟨rest, htext⟩ := dot_cases dot
    · exact ⟨['.'], [], .dot, htext⟩
    · exact ⟨['.'], '/' :: rest, .dotSlash rest, htext⟩
  · exact ⟨[], _, .plain relative dot, rfl⟩

theorem Starts.splitHead {head body : List Char} (h : Starts head body) : splitHead (head ++ body) = (head, body) := by
  cases h with
  | dot => rfl
  | dotSlash rest => rfl
  | plain relative notDot => exact splitHead_of_name relative notDot

section
variable {path : Path} {head body : List Char} (h : Starts head body) (htext : path.text.toList = head ++ body)
include h htext

theorem Starts.isAbsolute : path.isAbsolute = false := by
  rw [Path.isAbsolute, htext]
  cases h with
  | dot => rfl
  | dotSlash rest => rfl
  | plain relative notDot => simpa using relative

theorem Starts.parts : path.parts = startOf head ++ (segments body).filterMap partOfSegment? := by
  rw [Path.parts, htext, h.splitHead]
  cases h <;> rfl

end

theorem segments_front {body : List Char} {front more : List (List Char)} (h : segments body = front ++ more)
    (hne : front ≠ []) : segments (joinSegments front) = front := by
  apply segments_joinSegments hne
  intro s hs
  apply notMem_segments body
  rw [h]
  exact List.mem_append_left _ hs

theorem filterMap_segments_front {body : List Char} {front more : List (List Char)}
    (h : segments body = front ++ more) :
    (segments (joinSegments front)).filterMap partOfSegment? = front.filterMap partOfSegment? := by
  cases front with
  | nil => rfl
  | cons s front => rw [segments_front h (List.cons_ne_nil s front)]

theorem length_joinSegments_front {body : List Char} {front more : List (List Char)} (h : segments body = front ++ more)
    (hmore : more ≠ []) (hbody : body ≠ []) : (joinSegments front).length < body.length := by
  cases front with
  | nil => exact List.length_pos_iff.mpr hbody
  | cons s front =>
    conv_rhs => rw [← joinSegments_segments body, h, joinSegments_append (List.cons_ne_nil s front) hmore]
    simp

theorem Starts.front {head body : List Char} (h : Starts head body) {front more : List (List Char)}
    (hsegments : segments body = front ++ more) (hend : ∀ s ∈ front.getLast?, isIdle s = false) :
    Starts head (joinSegments front) := by
  cases front with
  | nil =>
    cases h with
    | dot => exact .dot
    | dotSlash rest => exact .dot
    | plain relative notDot => exact .plain (by simp [joinSegments]) (by simp [joinSegments, segments])
  | cons first front =>
    cases h with
    | dot =>
      obtain ⟨rfl, hnil⟩ := List.cons.inj hsegments
      obtain ⟨rfl, -⟩ := List.append_eq_nil_iff.mp hnil.symm
      cases hend [] rfl
    | dotSlash rest =>
      simp only [segments, if_true, List.cons_append, List.cons.injEq] at hsegments
      obtain ⟨rfl, -⟩ := hsegments
      cases front with
      | nil => cases hend [] rfl
      | cons second front => exact .dotSlash _
    | plain relative notDot =>
      have hjoin := segments_front hsegments (List.cons_ne_nil first front)
      have hfirst : (segments body).head? = some first := by rw [hsegments]; rfl
      refine .plain ?_ (by rw [hjoin]; rwa [hfirst] at notDot)
      intro hslash
      obtain ⟨tail, htail⟩ := List.head?_eq_some_iff.mp hslash
      -- a slash in front would leave the first segment empty
      rw [htail, segments, if_pos rfl] at hjoin
      obtain ⟨rfl, -⟩ := List.cons.inj hjoin
      cases body with
      | nil =>
        obtain ⟨-, hnil⟩ := List.cons.inj hsegments
        obtain ⟨rfl, -⟩ := List.append_eq_nil_iff.mp hnil.symm
        cases hend [] rfl
      | cons c cs =>
        have hc : c ≠ '/' := by simpa using relative
        simp only [segments, if_neg hc] at hfirst
        split at hfirst <;> cases hfirst

/-! ## Parents -/

theorem parent?_eq {path : Path} {head body : List Char} (h : Starts head body)
    (htext : path.text.toList = head ++ body) : path.parent? =
      if dropIdleEnd (segments body) = [] then if head = ['.'] then some ⟨""⟩ else none
      else some ⟨String.ofList (head ++ joinSegments (dropIdleEnd (dropIdleEnd (segments body)).dropLast))⟩ := by
  rw [parent?, htext, h.splitHead]
  cases hdrop : dropIdleEnd (segments body) with
  | nil => simp [hdrop]
  | cons s ss => simp [hdrop]

theorem parts_eq_nil_of_parent? {path : Path} (relative : path.isAbsolute = false) (h : path.parent? = none) :
    path.parts = [] := by
  obtain ⟨head, body, starts, htext⟩ := exists_starts relative
  rw [parent?_eq starts htext] at h
  have hdrop : dropIdleEnd (segments body) = [] := by
    by_contra hne
    simp [hne] at h
  have hhead : head ≠ ['.'] := by
    rintro rfl
    simp [hdrop] at h
  rw [starts.parts htext, ← filterMap_dropIdleEnd, hdrop, startOf, if_neg hhead]
  rfl

theorem exists_of_parent? {path parent : Path} (relative : path.isAbsolute = false) (h : path.parent? = some parent) :
    parent.isAbsolute = false ∧ (∃ part, path.parts = parent.parts ++ [part]) ∧
      parent.text.toList.length < path.text.toList.length := by
  obtain ⟨head, body, starts, htext⟩ := exists_starts relative
  rw [parent?_eq starts htext] at h
  have hparts := starts.parts htext
  rw [← filterMap_dropIdleEnd] at hparts
  by_cases hdrop : dropIdleEnd (segments body) = []
  · by_cases hhead : head = ['.']
    · obtain rfl : (⟨""⟩ : Path) = parent := by simpa [hdrop, hhead] using h
      rw [hdrop, hhead] at hparts
      rw [hhead] at htext
      exact ⟨rfl, ⟨.current, hparts⟩, by simp [htext]⟩
    · simp [hdrop, hhead] at h
  · have hfront := (List.dropLast_append_getLast hdrop).symm
    generalize (dropIdleEnd (segments body)).dropLast = front at hfront h
    generalize (dropIdleEnd (segments body)).getLast hdrop = last at hfront
    obtain rfl : (⟨String.ofList (head ++ joinSegments (dropIdleEnd front))⟩ : Path) = parent := by
      simpa [hdrop] using h
    obtain ⟨part, hpart⟩ := exists_partOfSegment?
      (isIdle_getLast_dropIdleEnd (segments body) last (by simp [hfront]))
    obtain ⟨idles, hsegments, -⟩ := exists_dropIdleEnd (segments body)
    obtain ⟨idles', hfront', -⟩ := exists_dropIdleEnd front
    -- the segments of the parent are the first ones of the path
    have hwhole : segments body = dropIdleEnd front ++ (idles' ++ last :: idles) := by
      conv_lhs => rw [hsegments, hfront, hfront']
      simp
    have hbody : body ≠ [] := by
      rintro rfl
      exact hdrop rfl
    have starts' := starts.front hwhole (isIdle_getLast_dropIdleEnd front)
    have htext' : (⟨String.ofList (head ++ joinSegments (dropIdleEnd front))⟩ : Path).text.toList =
        head ++ joinSegments (dropIdleEnd front) := String.toList_ofList
    refine ⟨starts'.isAbsolute htext', ⟨part, ?_⟩, ?_⟩
    · rw [hparts, hfront, starts'.parts htext', filterMap_segments_front hwhole, filterMap_dropIdleEnd]
      simp [hpart]
    · have hlength := length_joinSegments_front hwhole (by simp) hbody
      rw [htext', htext, List.length_append, List.length_append]
      exact Nat.add_lt_add_left hlength _

/-! ## Ancestors -/

theorem ancestorsUpTo_parts : ∀ (count : Nat) {path : Path}, path.isAbsolute = false →
    path.text.toList.length ≤ count →
      (∀ a ∈ ancestorsUpTo count path, a.isAbsolute = false) ∧
        (ancestorsUpTo count path).map parts = path.parts.inits.reverse
  | 0, path, relative, hcount => by
    obtain rfl : path = ⟨""⟩ := by
      have hempty : path.text = "" := String.toList_eq_nil_iff.mp (List.length_eq_zero_iff.mp (Nat.le_zero.mp hcount))
      rw [← hempty]
    exact ⟨by simp [ancestorsUpTo, relative], rfl⟩
  | count + 1, path, relative, hcount => by
    unfold ancestorsUpTo
    cases hparent : path.parent? with
    | none =>
      rw [parts_eq_nil_of_parent? relative hparent]
      exact ⟨by simpa using relative, by simp [parts_eq_nil_of_parent? relative hparent]⟩
    | some parent =>
      obtain ⟨relative', ⟨part, hparts⟩, hlength⟩ := exists_of_parent? relative hparent
      obtain ⟨hrelative, hmap⟩ := ancestorsUpTo_parts count relative' (by omega)
      refine ⟨List.forall_mem_cons.mpr ⟨relative, hrelative⟩, ?_⟩
      rw [List.map_cons, hmap, hparts, List.inits_append]
      simp

theorem isAbsolute_of_mem_ancestors {path ancestor : Path} (h : path.isAbsolute = false)
    (hmem : ancestor ∈ path.ancestors) : ancestor.isAbsolute = false :=
  (ancestorsUpTo_parts _ h (Nat.le_of_eq String.length_toList)).1 ancestor hmem

theorem map_parts_ancestors {path : Path} (h : path.isAbsolute = false) :
    path.ancestors.map parts = path.parts.inits.reverse :=
  (ancestorsUpTo_parts _ h (Nat.le_of_eq String.length_toList)).2

end FirmwareCatalog.Path

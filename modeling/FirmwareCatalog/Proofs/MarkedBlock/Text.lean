import FirmwareCatalog.Proofs.MarkedBlock.Splice

/-!
# Marked blocks of texts

A block spliced into the bytes of a text gives the bytes of a text: the markers
are whole characters, so no character is cut.
-/

namespace FirmwareCatalog.MarkedBlock

open Utf8

variable {markers : BlockMarkers}

theorem encode_newline : encode ['\n'] = [newline] := rfl

theorem head?_marker_not_continuation {marker : String} (hne : marker.toList ≠ []) (bytes : Bytes) :
    ∀ b ∈ (textBytes marker ++ bytes).head?, ¬ IsContinuation b := by
  intro b hb
  have hmarker : textBytes marker ≠ [] := encode_ne_nil hne
  rw [List.head?_append_of_ne_nil _ hmarker] at hb
  exact head?_encode_not_continuation _ b hb

/-- Among the characters no end marker begins before the one at the end, so among the bytes none does. -/
theorem delimited_of_chars {inner : List Char} (hstop : markers.stop.toList ≠ [])
    (h : ∀ k < inner.length, ¬ markers.stop.toList <+: (inner ++ markers.stop.toList ++
      ['\n']).drop k) :
    Delimited markers (encode (markers.start.toList ++ inner ++ markers.stop.toList ++ ['\n'])) := by
  refine ⟨encode inner, by simp only [encode_append, encode_newline]; rfl, fun k hk hp => ?_⟩
  have hbytes : encode (inner ++ markers.stop.toList ++ ['\n']) =
      encode inner ++ textBytes markers.stop ++ [newline] := by
    rw [encode_append, encode_append, encode_newline]; rfl
  rw [← hbytes] at hp
  obtain ⟨rest, hrest⟩ := hp
  have hcut : encode (inner ++ markers.stop.toList ++ ['\n']) =
      (encode (inner ++ markers.stop.toList ++ ['\n'])).take k ++
        (textBytes markers.stop ++ rest) := by
    rw [hrest, List.take_append_drop]
  obtain ⟨a, b, hab, ha, hb⟩ :=
    exists_split_of_encode_eq hcut (head?_marker_not_continuation hstop rest)
  obtain ⟨b', rfl, -⟩ := eq_append_of_encode_eq hb.symm
  have hlt : a.length < inner.length := by
    by_contra hge
    have hprefix : inner <+: a := by
      refine List.prefix_of_prefix_length_le ?_ (hab ▸ List.prefix_append a _) (Nat.le_of_not_lt hge)
      rw [List.append_assoc]
      exact List.prefix_append _ _
    obtain ⟨z, rfl⟩ := hprefix
    have hlength := congrArg List.length ha
    rw [encode_append inner z, List.length_append, List.length_take] at hlength
    omega
  refine h a.length hlt ?_
  rw [hab, List.drop_left]
  exact List.prefix_append _ _

theorem exists_chars_of_surroundings? (hm : newline ∉ textBytes markers.start)
    (hstart : markers.start.toList ≠ [])
    (hstop : markers.stop.toList ≠ []) {text : List Char} {before after : Bytes}
    (h : surroundings? markers (encode text) = some (before, after)) :
    ∃ b a, before = encode b ∧ after = encode a := by
  unfold surroundings? at h
  rcases locate_cases hm (encode text) with ⟨hloc, -⟩ | ⟨before', rest, hloc, -⟩ |
      ⟨before', inner, rest, hloc, htext, -⟩
  · rw [hloc] at h
    cases h
    have hgap : ∃ gap, separator (encode text) = encode gap := by
      unfold separator
      split
      · exact ⟨[], rfl⟩
      · split
        · exact ⟨['\n'], rfl⟩
        · exact ⟨['\n', '\n'], rfl⟩
    obtain ⟨gap, hgap⟩ := hgap
    exact ⟨text ++ gap, [], by rw [encode_append, hgap], rfl⟩
  · rw [hloc] at h
    cases h
  · rw [hloc] at h
    cases h
    simp only [List.append_assoc] at htext
    -- a marker begins with the first byte of a character, so the bytes are cut between characters
    obtain ⟨b, t, -, hbefore, ht⟩ :=
      exists_split_of_encode_eq htext (head?_marker_not_continuation hstart _)
    obtain ⟨t, -, ht⟩ := eq_append_of_encode_eq ht.symm
    obtain ⟨i, s, -, -, hs⟩ :=
      exists_split_of_encode_eq ht.symm (head?_marker_not_continuation hstop _)
    obtain ⟨s, -, hrest⟩ := eq_append_of_encode_eq hs.symm
    refine ⟨b, ?_⟩
    have hafter : ∃ a, (splitLineEnd rest).2 = encode a := by
      have hcut (lineEnd : List Char) {a : Bytes} (h : encode lineEnd ++ a = rest) :
          ∃ a', s = lineEnd ++ a' ∧ a = encode a' :=
        eq_append_of_encode_eq (by rw [h, hrest])
      have hparts := splitLineEnd_append rest
      unfold splitLineEnd at hparts ⊢
      split at hparts
      · obtain ⟨a, -, ha⟩ := hcut ['\r', '\n'] hparts
        exact ⟨a, ha⟩
      · obtain ⟨a, -, ha⟩ := hcut ['\n'] hparts
        exact ⟨a, ha⟩
      · exact ⟨s, hrest⟩
    obtain ⟨a, ha⟩ := hafter
    exact ⟨a, hbefore, ha⟩

end FirmwareCatalog.MarkedBlock

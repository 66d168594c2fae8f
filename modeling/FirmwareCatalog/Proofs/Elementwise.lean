import Mathlib.Data.List.Forall2

/-!
# Lists element by element

Two lists whose elements correspond, and loops that turn one list into another
or end with the error of the first element that has one.
-/

namespace FirmwareCatalog

/-! ## Corresponding elements -/

theorem exists_forall₂ {α β : Type} {R : α → β → Prop} {items : List β}
    (h : ∀ item ∈ items, ∃ a, R a item) :
    ∃ found, List.Forall₂ R found items := by
  induction items with
  | nil => exact ⟨[], .nil⟩
  | cons item items ih =>
    obtain ⟨hitem, h⟩ := List.forall_mem_cons.mp h
    obtain ⟨a, ha⟩ := hitem
    obtain ⟨found, hfound⟩ := ih h
    exact ⟨a :: found, .cons ha hfound⟩

theorem exists_mem_of_forall₂ {α β : Type} {R : α → β → Prop} {l : List α} {l' : List β}
    (h : List.Forall₂ R l l') :
    ∀ a ∈ l, ∃ b ∈ l', R a b := by
  induction h with
  | nil => exact fun a ha => nomatch ha
  | cons hr _ ih =>
    rw [List.forall_mem_cons]
    refine ⟨⟨_, List.mem_cons_self, hr⟩, fun a ha => ?_⟩
    obtain ⟨b, hb, hab⟩ := ih a ha
    exact ⟨b, List.mem_cons_of_mem _ hb, hab⟩

/-! ## The element at a position -/

theorem exists_append_of_getElem? {α : Type} {l : List α} {k : Nat} {a : α} (h : l[k]? = some a) :
    ∃ front behind, l = front ++ a :: behind ∧ front.length = k := by
  obtain ⟨hlt, hget⟩ := List.getElem?_eq_some_iff.mp h
  refine ⟨l.take k, l.drop (k + 1), ?_, by rw [List.length_take]; omega⟩
  rw [← hget, ← List.drop_eq_getElem_cons hlt, List.take_append_drop]

theorem getElem?_append_length {α : Type} (front : List α) (a : α) (behind : List α) :
    (front ++ a :: behind)[front.length]? = some a := by
  rw [List.getElem?_append_right (Nat.le_refl _), Nat.sub_self, List.getElem?_cons_zero]

/-! ## Loops that may fail -/

section

variable {α β ε : Type} {f : α → Except ε β}

theorem mapM_eq_ok_iff {l : List α} : ∀ {out : List β},
    l.mapM f = .ok out ↔ List.Forall₂ (fun a b => f a = .ok b) l out := by
  induction l with
  | nil =>
    intro out
    rw [List.mapM_nil, List.forall₂_nil_left_iff]
    constructor
    · intro h
      cases h
      rfl
    · intro h
      rw [h]
      rfl
  | cons a l ih =>
    intro out
    rw [List.mapM_cons, List.forall₂_cons_left_iff]
    cases ha : f a with
    | error e => simp [bind, Except.bind]
    | ok b =>
      simp only [← ih, Except.ok.injEq, exists_and_left, exists_eq_left']
      cases hl : l.mapM f with
      | error e => simp [bind, Except.bind]
      | ok bs => simp [bind, Except.bind, pure, Except.pure, eq_comm]

theorem mapM_eq_error_iff {l : List α} {e : ε} : l.mapM f = .error e ↔
    ∃ before a after, l = before ++ a :: after ∧ (∀ b ∈ before, ∃ c, f b = .ok c) ∧ f a = .error e := by
  induction l with
  | nil =>
    constructor
    · intro h
      cases h
    · intro ⟨before, a, after, h, _⟩
      cases before <;> cases h
  | cons a l ih =>
    rw [List.mapM_cons]
    constructor
    · intro h
      cases ha : f a with
      | error e' =>
        rw [ha] at h
        cases h
        exact ⟨[], a, l, rfl, nofun, ha⟩
      | ok b =>
        -- the first element succeeds, so the error is one of the others
        have hl : l.mapM f = .error e := by
          rw [ha] at h
          cases hl : l.mapM f with
          | error e' =>
            rw [hl] at h
            exact h
          | ok bs =>
            rw [hl] at h
            cases h
        obtain ⟨before, x, after, hsplit, hbefore, hx⟩ := ih.mp hl
        refine ⟨a :: before, x, after, by rw [hsplit, List.cons_append], ?_, hx⟩
        exact List.forall_mem_cons.mpr ⟨⟨b, ha⟩, hbefore⟩
    · intro ⟨before, x, after, hsplit, hbefore, hx⟩
      cases before with
      | nil =>
        obtain ⟨rfl, rfl⟩ := List.cons.inj hsplit
        rw [hx]
        rfl
      | cons b before =>
        obtain ⟨rfl, hl⟩ := List.cons.inj hsplit
        obtain ⟨⟨c, hc⟩, hbefore⟩ := List.forall_mem_cons.mp hbefore
        rw [hc, ih.mpr ⟨before, x, after, hl, hbefore, hx⟩]
        rfl

end

end FirmwareCatalog

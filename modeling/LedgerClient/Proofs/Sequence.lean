import Mathlib.Data.List.Forall2
/-!
# Reading one after the other

What is read one after the other is read if each is (`mapM_eq_ok_iff`), and fails with the first that
fails (`mapM_eq_error_iff`).
-/
namespace LedgerClient

variable {α β ε : Type} {f : α → Except ε β}

theorem ok_bind (a : α) (k : α → Except ε β) : (Except.ok a >>= k) = k a := rfl

theorem bind_eq_ok_iff {x : Except ε α} {k : α → Except ε β} {b : β} :
    (x >>= k) = .ok b ↔ ∃ a, x = .ok a ∧ k a = .ok b := by
  cases x with
  | error e => exact ⟨nofun, nofun⟩
  | ok a => exact ⟨fun h => ⟨a, rfl, h⟩, fun ⟨_, ha, h⟩ => Except.ok.inj ha ▸ h⟩

/-- What is read one after the other is read if each is. -/
theorem mapM_eq_ok_iff {xs : List α} {ys : List β} :
    xs.mapM f = .ok ys ↔ List.Forall₂ (fun x y => f x = .ok y) xs ys := by
  induction xs generalizing ys with
  | nil => cases ys <;> simp [pure, Except.pure]
  | cons x xs ih =>
    rw [List.mapM_cons]
    cases hx : f x with
    | error e => cases ys <;> simp [bind, Except.bind, hx]
    | ok y =>
      cases hxs : xs.mapM f with
      | error e => cases ys <;> simp [bind, Except.bind, ← ih, hxs]
      | ok zs => cases ys <;> simp [bind, Except.bind, pure, Except.pure, hx, ← ih, hxs]

/-- It fails with the first that fails. -/
theorem mapM_eq_error_iff {xs : List α} {e : ε} :
    xs.mapM f = .error e ↔
      ∃ before x after, xs = before ++ x :: after ∧ (∀ y ∈ before, ∃ z, f y = .ok z) ∧ f x = .error e := by
  induction xs with
  | nil => simp [pure, Except.pure]
  | cons x xs ih =>
    rw [List.mapM_cons]
    constructor
    · intro h
      cases hx : f x with
      | error e' =>
        rw [hx] at h
        cases h
        exact ⟨[], x, xs, rfl, nofun, hx⟩
      | ok y =>
        cases hxs : xs.mapM f with
        | ok zs =>
          rw [hx, hxs] at h
          cases h
        | error e' =>
          rw [hx, hxs] at h
          cases h
          obtain ⟨before, x', after, rfl, hb, hx'⟩ := ih.1 hxs
          refine ⟨x :: before, x', after, rfl, ?_, hx'⟩
          rintro _ (_ | ⟨_, hy⟩)
          · exact ⟨y, hx⟩
          · exact hb _ hy
    · rintro ⟨_ | ⟨b, before⟩, x', after, h, hb, hx'⟩ <;> obtain ⟨rfl, rfl⟩ := List.cons.inj h
      · rw [hx']
        rfl
      · obtain ⟨z, hz⟩ := hb _ List.mem_cons_self
        rw [hz, ih.2 ⟨before, x', after, rfl, fun y hy => hb y (List.mem_cons_of_mem _ hy), hx'⟩]
        rfl

/-- What comes of a sequence is what comes of its members. -/
theorem mem_mapM_iff {xs : List α} {ys : List β} (h : xs.mapM f = .ok ys) {y : β} :
    y ∈ ys ↔ ∃ x ∈ xs, f x = .ok y := by
  have hall := mapM_eq_ok_iff.1 h
  clear h
  induction hall with
  | nil => simp
  | @cons x z xs ys hx _ ih =>
    refine List.mem_cons.trans ((or_congr_right ih).trans ⟨?_, ?_⟩)
    · rintro (rfl | ⟨x', hx', he⟩)
      · exact ⟨x, List.mem_cons_self, hx⟩
      · exact ⟨x', List.mem_cons_of_mem _ hx', he⟩
    · rintro ⟨x', hx', he⟩
      rcases List.mem_cons.1 hx' with rfl | hx'
      · exact .inl (Except.ok.inj (he.symm.trans hx))
      · exact .inr ⟨x', hx', he⟩

/-- A sequence is read if each of its members can be. -/
theorem exists_mapM_iff {xs : List α} : (∃ ys, xs.mapM f = .ok ys) ↔ ∀ x ∈ xs, ∃ y, f x = .ok y := by
  constructor
  · rintro ⟨ys, h⟩
    have hall := mapM_eq_ok_iff.1 h
    clear h
    induction hall with
    | nil => exact nofun
    | cons hx _ ih => exact List.forall_mem_cons.2 ⟨⟨_, hx⟩, ih⟩
  · intro h
    cases hm : xs.mapM f with
    | ok ys => exact ⟨ys, rfl⟩
    | error e =>
      obtain ⟨before, x, after, rfl, -, hx⟩ := mapM_eq_error_iff.1 hm
      obtain ⟨y, hy⟩ := h x (List.mem_append_right _ List.mem_cons_self)
      cases hx.symm.trans hy

end LedgerClient

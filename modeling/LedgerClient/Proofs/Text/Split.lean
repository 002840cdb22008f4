import LedgerClient.Text.Split
/-!
# The first place of a mark, and the last

Text is split at the first place of a mark exactly if the mark stands in it (`splitFirst?_eq_none_iff`), and what stands
before that place is shorter than what stands before any other (`splitFirst?_eq_some_iff`).  It is split at the last
place of a character exactly if the character does not stand in what comes after (`splitLast?_eq_some_iff`).
-/
namespace LedgerClient.Text

/-- `a` and `b` stand before and after the first place of `mark` in `s`. -/
def SplitsFirst (mark s a b : List Char) : Prop :=
  s = a ++ mark ++ b ∧ ∀ a' b', s = a' ++ mark ++ b' → a.length ≤ a'.length

variable {mark s a b : List Char}

/-- There is one first place. -/
theorem SplitsFirst.unique {a' b' : List Char} (h : SplitsFirst mark s a b) (h' : SplitsFirst mark s a' b') :
    a = a' ∧ b = b' := by
  have hl : a.length = a'.length := Nat.le_antisymm (h.2 _ _ h'.1) (h'.2 _ _ h.1)
  have hs : a ++ (mark ++ b) = a' ++ (mark ++ b') := by
    rw [← List.append_assoc, ← List.append_assoc, ← h.1, ← h'.1]
  obtain ⟨ha, hb⟩ := List.append_inj hs hl
  exact ⟨ha, List.append_cancel_left hb⟩

/-- A mark at the head is at its first place. -/
theorem splitsFirst_head (mark b : List Char) : SplitsFirst mark (mark ++ b) [] b :=
  ⟨rfl, fun a' _ _ => Nat.zero_le a'.length⟩

/-- A mark that is not at the head has its first place in the rest. -/
theorem SplitsFirst.cons {c : Char} (hc : ¬ mark <+: c :: s) (h : SplitsFirst mark s a b) :
    SplitsFirst mark (c :: s) (c :: a) b := by
  refine ⟨congrArg (c :: ·) h.1, fun a' b' h' => ?_⟩
  cases a' with
  | nil => exact absurd ⟨b', h'.symm⟩ hc
  | cons d a' => exact Nat.succ_le_succ (h.2 a' b' (List.cons.inj h').2)

/-- **A mark is at its first place** where nothing before it has the character that it begins with. -/
theorem splitsFirst_of_not_mem {m : Char} {r : List Char} (h : m ∉ a) :
    SplitsFirst (m :: r) (a ++ (m :: r) ++ b) a b := by
  induction a with
  | nil => exact splitsFirst_head (m :: r) b
  | cons c a ih =>
    obtain ⟨hc, ha⟩ := List.ne_and_not_mem_of_not_mem_cons h
    refine SplitsFirst.cons (fun hp => ?_) (ih ha)
    exact hc (List.cons_prefix_cons.1 hp).1

/-- **What is split is split at the first place.** -/
theorem splitsFirst_of_eq_some (h : splitFirst? mark s = some (a, b)) : SplitsFirst mark s a b := by
  induction s generalizing a b with
  | nil => cases h
  | cons c r ih =>
    unfold splitFirst? at h
    split at h
    · rename_i hp
      obtain ⟨rest, hr⟩ := List.isPrefixOf_iff_prefix.1 hp
      rw [← hr, List.drop_left] at h
      cases h
      exact hr ▸ splitsFirst_head mark b
    · rename_i hp
      obtain ⟨⟨a', b'⟩, hs, hab⟩ := Option.map_eq_some_iff.1 h
      cases hab
      exact (ih hs).cons fun hc => hp (List.isPrefixOf_iff_prefix.2 hc)

/-- **What is not split does not have the mark.** -/
theorem splitFirst?_eq_none_iff (hm : mark ≠ []) : splitFirst? mark s = none ↔ ¬ mark <:+: s := by
  induction s with
  | nil => simpa [splitFirst?] using hm
  | cons c r ih =>
    rw [splitFirst?, List.infix_cons_iff, ← List.isPrefixOf_iff_prefix]
    split
    · rename_i hp
      simp [hp]
    · rename_i hp
      simp [hp, ih]

/-- **Text is split at the first place of the mark**, and nowhere else. -/
theorem splitFirst?_eq_some_iff (hm : mark ≠ []) : splitFirst? mark s = some (a, b) ↔ SplitsFirst mark s a b := by
  refine ⟨splitsFirst_of_eq_some, fun h => ?_⟩
  cases hs : splitFirst? mark s with
  | none => exact absurd ⟨a, b, h.1.symm⟩ ((splitFirst?_eq_none_iff hm).1 hs)
  | some p =>
    obtain ⟨rfl, rfl⟩ := (splitsFirst_of_eq_some hs).unique h
    rfl

/-! ## The last place -/

theorem splitLast?_eq_none_iff {m : Char} : splitLast? m s = none ↔ m ∉ s := by
  induction s with
  | nil => simp [splitLast?]
  | cons c r ih =>
    rw [splitLast?, List.mem_cons, not_or, ← ih]
    cases splitLast? m r with
    | some ab => simp
    | none => simp [eq_comm]

theorem splitLast?_append {m : Char} (h : m ∉ b) : splitLast? m (a ++ m :: b) = some (a, b) := by
  induction a with
  | nil => rw [List.nil_append, splitLast?, splitLast?_eq_none_iff.2 h, if_pos rfl]
  | cons c a ih => rw [List.cons_append, splitLast?, ih]

theorem of_splitLast?_eq_some {m : Char} (h : splitLast? m s = some (a, b)) : s = a ++ m :: b ∧ m ∉ b := by
  induction s generalizing a with
  | nil => cases h
  | cons c r ih =>
    rw [splitLast?] at h
    split at h
    · rename_i hr
      cases h
      obtain ⟨rfl, hm⟩ := ih hr
      exact ⟨rfl, hm⟩
    · rename_i hr
      split at h
      · rename_i hc
        cases h
        exact ⟨by rw [hc, List.nil_append], splitLast?_eq_none_iff.1 hr⟩
      · cases h

/-- **Text is split at the last place of a character**, and nowhere else. -/
theorem splitLast?_eq_some_iff {m : Char} : splitLast? m s = some (a, b) ↔ s = a ++ m :: b ∧ m ∉ b :=
  ⟨of_splitLast?_eq_some, fun ⟨hs, hm⟩ => hs ▸ splitLast?_append hm⟩

end LedgerClient.Text

import LedgerClient.Storage.HomePath
import LedgerClient.Proofs.Text.Blank
/-!
# What lies at home

A path that is a tilde, or begins with one and a slash, names in the home folder what comes after all of its slashes,
however many there are (`AtHome`, `expandChars_atHome`).  Every other path is left as it is, and so is a path that was
expanded (`expandHome_lies_under`).
-/
namespace LedgerClient.Storage

/-- The path names `rest` at home: a tilde, slashes, and `rest`, which does not begin with one. -/
structure AtHome (path rest : List Char) : Prop where
  spelled : ∃ n, path = '~' :: (List.replicate n slash ++ rest) ∧ (n = 0 → rest = [])
  head : rest.head? ≠ some slash

variable {home path rest : List Char}

theorem exists_slashes (r : List Char) : ∃ n rest, r = List.replicate n slash ++ rest ∧ rest.head? ≠ some slash := by
  induction r with
  | nil => exact ⟨0, [], rfl, nofun⟩
  | cons c r ih =>
    by_cases hc : c = slash
    · obtain ⟨n, rest, rfl, hrest⟩ := ih
      exact ⟨n + 1, rest, by rw [hc, List.replicate_succ, List.cons_append], hrest⟩
    · refine ⟨0, c :: r, rfl, fun h => hc ?_⟩
      exact Option.some.inj h

/-- **Which paths are at home.** -/
theorem exists_atHome_iff : (∃ rest, AtHome path rest) ↔ path = ['~'] ∨ ['~', slash] <+: path := by
  constructor
  · rintro ⟨rest, ⟨n, rfl, hn⟩, -⟩
    cases n with
    | zero =>
      rw [hn rfl]
      exact .inl rfl
    | succ n => exact .inr ⟨List.replicate n slash ++ rest, rfl⟩
  · rintro (rfl | ⟨r, rfl⟩)
    · exact ⟨[], ⟨0, rfl, fun _ => rfl⟩, nofun⟩
    · obtain ⟨n, rest, rfl, hrest⟩ := exists_slashes r
      exact ⟨rest, ⟨n + 1, rfl, nofun⟩, hrest⟩

theorem dropWhile_slashes (n : Nat) (h : rest.head? ≠ some slash) :
    (List.replicate n slash ++ rest).dropWhile (· = slash) = rest := by
  refine dropWhile_append_of_head (fun c hc => ?_) fun c hc => ?_
  · rw [List.eq_of_mem_replicate hc]
    decide
  · rw [decide_eq_false_iff_not]
    rintro rfl
    exact h hc

/-! ## Expanding -/

/-- **A path at home is put behind the home folder**, without any of its slashes. -/
theorem expandChars_atHome (h : AtHome path rest) : expandChars home path = join home rest := by
  obtain ⟨⟨n, rfl, hn⟩, hrest⟩ := h
  have hslash : (List.replicate n slash ++ rest).isEmpty || (List.replicate n slash ++ rest).head? = some slash := by
    cases n with
    | zero =>
      rw [hn rfl]
      rfl
    | succ n => simp [List.replicate_succ]
  rw [expandChars, if_pos hslash, dropWhile_slashes n hrest]

theorem expandChars_of_not_atHome (h : ¬ ∃ rest, AtHome path rest) : expandChars home path = path := by
  rw [exists_atHome_iff, not_or] at h
  unfold expandChars
  split
  · rename_i r
    refine if_neg fun hr => ?_
    rw [Bool.or_eq_true, List.isEmpty_iff, decide_eq_true_eq] at hr
    rcases hr with rfl | hr
    · exact h.1 rfl
    · obtain ⟨r', rfl⟩ := List.head?_eq_some_iff.1 hr
      exact h.2 ⟨r', rfl⟩
  · rfl

theorem not_atHome_of_head (h : path.head? ≠ some '~') : ¬ ∃ rest, AtHome path rest := by
  rintro ⟨rest, ⟨n, rfl, -⟩, -⟩
  exact h rfl

theorem head?_join (h : home ≠ []) : (join home rest).head? = home.head? := by
  obtain ⟨c, home, rfl⟩ := List.exists_cons_of_ne_nil h
  unfold join
  split <;> rfl

theorem toList_prefix_iff {s t : String} : s.toList <+: t.toList ↔ ∃ r, t = s ++ r := by
  constructor
  · rintro ⟨r, hr⟩
    refine ⟨String.ofList r, String.toList_inj.1 ?_⟩
    rw [String.toList_append, String.toList_ofList, hr]
  · rintro ⟨r, rfl⟩
    exact ⟨r.toList, String.toList_append.symm⟩

/-- **A path at home lies under the home folder**, and no slash of its own takes it anywhere else: it is the folder,
a slash unless the folder ends with one, and the rest.  Every other path stays as it is, and expanding a path twice is
expanding it once. -/
theorem expandHome_lies_under (home path : String) (hhome : home ≠ "") (htilde : home.toList.head? ≠ some '~') :
    ((∃ rest, AtHome path.toList rest) ↔ path = "~" ∨ ∃ r, path = "~/" ++ r) ∧
    (∀ rest, AtHome path.toList rest →
      expandHome home path =
        home ++ (if home.toList.getLast? = some slash then "" else "/") ++ String.ofList rest) ∧
    ((¬ ∃ rest, AtHome path.toList rest) → expandHome home path = path) ∧
    expandHome home (expandHome home path) = expandHome home path := by
  have hunder : ∀ rest, AtHome path.toList rest → expandHome home path = String.ofList (join home.toList rest) :=
    fun rest h => by rw [expandHome, expandChars_atHome h]
  have hother : ∀ p : String, (¬ ∃ rest, AtHome p.toList rest) → expandHome home p = p := fun p h => by
    rw [expandHome, expandChars_of_not_atHome h, String.ofList_toList]
  refine ⟨?_, fun rest h => ?_, hother path, ?_⟩
  · rw [exists_atHome_iff]
    show path.toList = "~".toList ∨ "~/".toList <+: path.toList ↔ _
    rw [String.toList_inj, toList_prefix_iff]
  · rw [hunder rest h, join]
    by_cases hlast : home.toList.getLast? = some slash
    · rw [if_pos hlast, if_pos hlast, String.append_empty, String.ofList_append, String.ofList_toList]
    · rw [if_neg hlast, if_neg hlast, List.append_cons, String.ofList_append, String.ofList_append,
        String.ofList_toList]
      rfl
  · by_cases h : ∃ rest, AtHome path.toList rest
    · obtain ⟨rest, hrest⟩ := h
      refine hother _ (not_atHome_of_head ?_)
      have hne : home.toList ≠ [] := fun hnil => hhome (String.toList_inj.1 hnil)
      rwa [hunder rest hrest, String.toList_ofList, head?_join hne]
    · rw [hother path h, hother path h]

/-- Three slashes do not lead to the root, and the home of somebody else is not looked for. -/
theorem expandHome_lies_under_slashes : "/home/me" ≠ "" ∧ "/home/me".toList.head? ≠ some '~' ∧
    AtHome "~///etc".toList "etc".toList ∧ expandHome "/home/me" "~///etc" = "/home/me/etc" ∧
    (¬ ∃ rest, AtHome "~you/etc".toList rest) ∧ expandHome "/home/me" "~you/etc" = "~you/etc" := by
  have hhome : "/home/me" ≠ "" := by decide
  have htilde : "/home/me".toList.head? ≠ some '~' := by decide
  have hrest : AtHome "~///etc".toList "etc".toList := ⟨⟨3, by rfl, by decide⟩, by decide⟩
  have hyou : ¬ ∃ rest, AtHome "~you/etc".toList rest := by
    rw [exists_atHome_iff]
    decide
  refine ⟨hhome, htilde, hrest, ?_, hyou, ?_⟩
  · rw [(expandHome_lies_under "/home/me" "~///etc" hhome htilde).2.1 _ hrest, if_neg (by decide)]
    rfl
  · exact (expandHome_lies_under "/home/me" "~you/etc" hhome htilde).2.2.1 hyou

end LedgerClient.Storage

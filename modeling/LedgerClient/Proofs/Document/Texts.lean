import LedgerClient.Proofs.Document.Items
/-!
# Objects of strings are read

Members whose values are texts are taken like any others (`text_understands`), and are those of an object of strings
(`isObject_iff`).  So exactly the objects of strings are read, each as its own pairs (`readTexts_eq_ok_iff`), and all
other bytes are refused.
-/
namespace LedgerClient.Json

/-- A text is put behind the pairs that were read before it. -/
inductive TakesText : List (String × String) → String → List UInt8 → List (String × String) → Prop where
  | mk {done : List (String × String)} {key value : String} {v : List UInt8} (h : IsText v value) :
      TakesText done key v (done ++ [(key, value)])

theorem text_understands : Understands textMember TakesText where
  read := by
    rintro done key v done' b b' r ⟨h⟩ hb hb' -
    rw [textMember, dropColon_blanks hb, ok_bind, h.readText hb']
    rfl
  taken := by
    intro done key s done' r h
    obtain ⟨u, hu, h⟩ := bind_eq_ok_iff.1 h
    obtain ⟨⟨value, w⟩, hv, h⟩ := bind_eq_ok_iff.1 h
    cases h
    obtain ⟨b, hb, rfl⟩ := colon_of_dropColon hu
    obtain ⟨b', v, hb', ht, rfl⟩ := isText_of_readText hv
    exact ⟨b, b', v, hb, hb', ht.isValue, .mk ht, rfl⟩

theorem Members.entries {s : List UInt8} {ps : List (String × String)} (h : Members s ps) :
    ∃ ms, Entries s ms ∧ ∀ done, Run TakesText done ms (done ++ ps) := by
  induction h with
  | @last s b p h hb =>
    obtain ⟨⟨hk⟩, hb₁, hb₂, hv⟩ := h
    refine ⟨_, ?_, fun done => .cons hk (.mk hv) .nil⟩
    simpa using Entries.last hk.spelled hb₁ hb₂ hv.isValue hb
  | @more s b b' r p ps h hb hb' _ ih =>
    obtain ⟨ms, hms, hrun⟩ := ih
    obtain @⟨_, _, _, _, key, value, ⟨hk⟩, hb₁, hb₂, hv⟩ := h
    refine ⟨_ :: ms, ?_, fun done => .cons hk (.mk hv) ?_⟩
    · simpa using Entries.more hk.spelled hb₁ hb₂ hv.isValue hb hb' hms
    · simpa using hrun (done ++ [(key, value)])

theorem members_of_entries {s : List UInt8} {ms : List (List UInt8 × List UInt8)} {done all : List (String × String)}
    (h : Entries s ms) (hrun : Run TakesText done ms all) : ∃ ps, Members s ps ∧ all = done ++ ps := by
  induction ms generalizing s done with
  | nil => cases h
  | cons m ms ih =>
    obtain _ | ⟨hk, ⟨hv⟩, hrun⟩ := hrun
    cases h with
    | last _ hb hb' _ hclose =>
      cases hrun
      exact ⟨_, by simpa using Members.last (.mk (.mk hk) hb hb' hv) hclose, rfl⟩
    | more _ hb hb' _ h₁ h₂ h =>
      obtain ⟨ps, hps, rfl⟩ := ih h hrun
      exact ⟨_ :: ps, by simpa using Members.more (.mk (.mk hk) hb hb' hv) h₁ h₂ hps, by simp⟩

/-- **An object of strings is an object with a text under each key.** -/
theorem isObject_iff {s : List UInt8} {ps : List (String × String)} : IsObject s ps ↔
    ∃ b t r ms, Blanks b ∧ Blanks r ∧ IsObjectOf (openObject :: t) ms ∧ Run TakesText [] ms ps ∧
      s = b ++ openObject :: (t ++ r) := by
  constructor
  · rintro (⟨h₀, h₁, h₂⟩ | ⟨h₀, h₁, h₂, h⟩)
    · exact ⟨_, _, _, [], h₀, h₂, .empty h₁, .nil, by simp⟩
    · obtain ⟨ms, hms, hrun⟩ := h.entries
      exact ⟨_, _, _, ms, h₀, h₂, .members h₁ hms, hrun [], by simp⟩
  · rintro ⟨b, t, r, ms, hb, hr, ho, hrun, rfl⟩
    cases ho with
    | empty h₁ =>
      cases hrun
      simpa using IsObject.empty hb h₁ hr
    | members h₁ h =>
      obtain ⟨ps, hps, rfl⟩ := members_of_entries h hrun
      simpa using IsObject.members hb h₁ hr hps

/-- **Exactly the objects of strings are read**, each as the pairs it holds. -/
theorem readTexts_eq_ok_iff {s : List UInt8} {ps : List (String × String)} : readTexts s = .ok ps ↔ IsObject s ps := by
  have hlen : ∀ b r : List UInt8, r.length < (b ++ openObject :: r).length + 1 := by simp; omega
  rw [isObject_iff, readTexts, finish_eq_ok_iff]
  constructor
  · rintro ⟨r, h, hr⟩
    split at h
    · cases h
    rename_i c u hc
    obtain ⟨b, hb, rfl⟩ := exists_blanks_cons hc
    split at h
    · rename_i hopen
      rw [hopen] at h ⊢
      obtain ⟨ms, hms, hrun⟩ := (members_eq_ok_iff text_understands (hlen b u)).1 h
      obtain ⟨t, ho, rfl⟩ := membersTo_first_iff.1 hms
      exact ⟨b, t, r, ms, hb, hr, ho, hrun, rfl⟩
    · cases h
  · rintro ⟨b, t, r, ms, hb, hr, ho, hrun, rfl⟩
    refine ⟨r, ?_, hr⟩
    rw [dropBlanks_append hb (by decide)]
    dsimp only
    rw [if_pos rfl]
    exact (members_eq_ok_iff text_understands (hlen b _)).2 ⟨ms, membersTo_first_iff.2 ⟨t, ho, rfl⟩, hrun⟩

theorem IsObject.readTexts_eq {s : List UInt8} {ps : List (String × String)} (h : IsObject s ps) :
    readTexts s = .ok ps := readTexts_eq_ok_iff.2 h

theorem IsObject.unique {s : List UInt8} {ps qs : List (String × String)} (h : IsObject s ps) (h' : IsObject s qs) :
    ps = qs := Except.ok.inj (h.readTexts_eq.symm.trans h'.readTexts_eq)

theorem readTexts_eq_error_iff {s : List UInt8} : (∃ f, readTexts s = .error f) ↔ ∀ ps, ¬ IsObject s ps := by
  constructor
  · rintro ⟨f, hf⟩ ps h
    cases hf.symm.trans h.readTexts_eq
  · intro h
    cases hr : readTexts s with
    | error f => exact ⟨f, rfl⟩
    | ok ps => exact absurd (readTexts_eq_ok_iff.1 hr) (h ps)

end LedgerClient.Json

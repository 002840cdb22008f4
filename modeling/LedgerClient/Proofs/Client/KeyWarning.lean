import LedgerClient.Proofs.Client.Opening
/-!
# The warning about the keys

A call that is not strict takes the first key file by name, and warns if there were others (`KeyWarning`).  That is all
it leaves behind before it is sent (`ready_reports`).
-/
namespace LedgerClient

namespace KeyStore

variable {files : Storage.FileTree} {dir : String}

/-- **Without being strict, the first by name is chosen** among any number of files. -/
theorem choose_lenient_iff {c : Choice} : choose files dir false = .ok c ↔
    ∃ names n ns, files.list dir = .ok names ∧ candidates files dir names = .ok (n :: ns) ∧
      c = ⟨entryPath dir (least n ns), ns.length + 1⟩ := by
  unfold choose chooseAmong
  cases files.list dir with
  | error c => simp
  | ok names =>
    simp only [Bool.false_and, Bool.false_eq_true, ↓reduceIte, Except.ok.injEq, exists_and_left, exists_eq_left']
    cases candidates files dir names with
    | error e => simp
    | ok fs => cases fs <;> simp [and_assoc, eq_comm]

/-- A strict choice is one among one. -/
theorem count_of_strict {c : Choice} (h : choose files dir true = .ok c) : c.count = 1 := by
  unfold choose chooseAmong at h
  split at h
  · cases h
  · split at h
    · cases h
    · cases h
    · split at h
      · cases h
      · rename_i n ns _ hns
        cases h
        have : ns = [] := by simpa using hns
        rw [this]
        rfl

/-- The warning about a choice among many. -/
def choiceWarning (dir : String) : Except CallError Choice → List Event
  | .ok c => if 1 < c.count then [.manyKeys dir c.count c.path] else []
  | .error _ => []

theorem after_select (strict : Bool) (t : Trace) : (Run.after t (select files dir strict)).2 =
    { t with events := t.events ++ choiceWarning dir (choose files dir strict) } := by
  unfold select choiceWarning
  cases choose files dir strict with
  | error e => simp [Run.ofExcept_error_bind]
  | ok c =>
    rw [Run.ofExcept_ok, pure_bind]
    dsimp only
    split
    · rfl
    · simp

/-- Reading the chosen key leaves nothing behind. -/
theorem after_load (home : String) (strict : Bool) (t : Trace) : (Run.after t (load files home dir strict)).2 =
    { t with events := t.events ++
      choiceWarning (Storage.expandHome home dir) (choose files (Storage.expandHome home dir) strict) } := by
  rw [← after_select, load, Run.after_bind]
  rcases Run.after t (select files (Storage.expandHome home dir) strict) with ⟨x | path, u⟩
  · rfl
  · simp

end KeyStore

namespace Invocation

open Gateway (Session)
open LocalCheck (ready)

/-- **A choice among key files**, without being strict: the transport and the identity are there, and `n` and `ns` are
the files in the folder. -/
structure Met (w : Surroundings) (p : Policy) (i : Invocation) (n : String) (ns : List String) : Prop where
  transport : ∃ τ, i.transport w = .ok τ
  identity : ∃ d, i.identity w = .ok d
  lenient : p.strictKeys = false
  files : ∃ names, w.files.list (Storage.expandHome w.home i.keyDir) = .ok names ∧
    KeyStore.candidates w.files (Storage.expandHome w.home i.keyDir) names = .ok (n :: ns)

/-- **The warning about the keys**: there were two files or more to choose from. -/
inductive KeyWarning (w : Surroundings) (p : Policy) (i : Invocation) : List Event → Prop
  | many {n : String} {ns : List String} (h : Met w p i n ns) (hn : ns ≠ []) :
      KeyWarning w p i [.manyKeys (Storage.expandHome w.home i.keyDir) (ns.length + 1)
        (KeyStore.entryPath (Storage.expandHome w.home i.keyDir) (KeyStore.least n ns))]
  | none (h : ∀ n ns, Met w p i n ns → ns = []) : KeyWarning w p i []

variable {w : Surroundings} {p : Policy} {i : Invocation}

theorem Met.unique {n n' : String} {ns ns' : List String} (h : Met w p i n ns) (h' : Met w p i n' ns') :
    n = n' ∧ ns = ns' := by
  obtain ⟨names, hl, hf⟩ := h.files
  obtain ⟨names', hl', hf'⟩ := h'.files
  cases hl.symm.trans hl'
  cases hf.symm.trans hf'
  exact ⟨rfl, rfl⟩

/-- There is one warning about the keys, or none. -/
theorem KeyWarning.unique {keys keys' : List Event} (h : KeyWarning w p i keys) (h' : KeyWarning w p i keys') :
    keys = keys' := by
  cases h with
  | many h hn =>
    cases h' with
    | many h' _ =>
      obtain ⟨rfl, rfl⟩ := h.unique h'
      rfl
    | none h' => exact absurd (h' _ _ h) hn
  | none h =>
    cases h' with
    | many h' hn => exact absurd (h _ _ h') hn
    | none => rfl

theorem keyWarning_choice (hτ : ∃ τ, i.transport w = .ok τ) (hd : ∃ d, i.identity w = .ok d) :
    KeyWarning w p i (KeyStore.choiceWarning (Storage.expandHome w.home i.keyDir)
      (KeyStore.choose w.files (Storage.expandHome w.home i.keyDir) p.strictKeys)) := by
  cases hs : p.strictKeys with
  | true =>
    have hnone : KeyStore.choiceWarning (Storage.expandHome w.home i.keyDir)
        (KeyStore.choose w.files (Storage.expandHome w.home i.keyDir) true) = [] := by
      cases hc : KeyStore.choose w.files (Storage.expandHome w.home i.keyDir) true with
      | error e => rfl
      | ok c => simp [KeyStore.choiceWarning, KeyStore.count_of_strict hc]
    rw [hnone]
    exact .none fun n ns h => by cases hs.symm.trans h.lenient
  | false =>
    cases hc : KeyStore.choose w.files (Storage.expandHome w.home i.keyDir) false with
    | error e =>
      refine .none fun n ns h => ?_
      obtain ⟨names, hl, hf⟩ := h.files
      cases hc.symm.trans (KeyStore.choose_lenient_iff.2 ⟨names, n, ns, hl, hf, rfl⟩)
    | ok c =>
      obtain ⟨names, n, ns, hl, hf, rfl⟩ := KeyStore.choose_lenient_iff.1 hc
      have hmet : Met w p i n ns := ⟨hτ, hd, hs, names, hl, hf⟩
      by_cases hn : ns = []
      · subst hn
        exact .none fun n' ns' h => (hmet.unique h).2.symm
      · have hcount : 1 < ns.length + 1 := Nat.succ_lt_succ (List.length_pos_iff.2 hn)
        rw [KeyStore.choiceWarning, if_pos hcount]
        exact .many hmet hn

/-- **Before it is sent, a call leaves behind the warning about its keys** and nothing else. -/
theorem ready_reports (w : Surroundings) (p : Policy) (i : Invocation) :
    ∃ keys, KeyWarning w p i keys ∧
      ∀ t, (Run.after t (ready w p i)).2 = { t with events := t.events ++ keys } := by
  unfold ready
  rw [openSession_eq]
  cases hτ : i.transport w with
  | error e =>
    refine ⟨[], .none fun n ns h => ?_, fun t => by simp [Run.ofExcept_error_bind, Run.after_bind]⟩
    obtain ⟨_, h⟩ := h.transport
    cases hτ.symm.trans h
  | ok τ =>
    cases hd : i.identity w with
    | error e =>
      refine ⟨[], .none fun n ns h => ?_, fun t => by
        simp [Run.ofExcept_ok, Run.ofExcept_error_bind, Run.after_bind]⟩
      obtain ⟨_, h⟩ := h.identity
      cases hd.symm.trans h
    | ok d =>
      refine ⟨_, keyWarning_choice ⟨τ, hτ⟩ ⟨d, hd⟩, fun t => ?_⟩
      rw [← KeyStore.after_load]
      simp only [Run.ofExcept_ok, pure_bind, bind_assoc]
      rw [Run.after_bind, key]
      rcases Run.after t (KeyStore.load w.files w.home i.keyDir p.strictKeys) with ⟨x | k, u⟩
      · rfl
      · dsimp only
        cases Session.bind i.network i.contract <;> rfl

end Invocation
end LedgerClient

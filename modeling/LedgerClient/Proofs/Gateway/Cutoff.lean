import LedgerClient.Proofs.Gateway.Reports
import LedgerClient.Proofs.Gateway.Evaluation
/-!
# When a flow is cut off

A request whose deadline is too long to be written down cannot be sent: whoever makes it is cut off, without an error
(`Session.outcome_eq_panicked_iff`).  Nothing else cuts a flow off, so one is cut off exactly when such a request is
due (`Session.carryOut_cutOff_iff`).
-/
namespace LedgerClient

variable {α β : Type}

/-- The run is cut off: it ends neither with a result nor with an error. -/
def Run.CutOff (r : Run α) (t : Trace) : Prop := (after t r).1 = .error .panicked

/-- A bind is cut off in its first part or in what follows. -/
theorem Run.bind_cutOff_iff {t : Trace} {r : Run α} {k : α → Run β} :
    (r >>= k).CutOff t ↔ r.CutOff t ∨ ∃ a u, after t r = (.ok a, u) ∧ (k a).CutOff u := by
  unfold CutOff
  rw [after_bind]
  rcases after t r with ⟨x | a, u⟩
  · constructor
    · intro h
      cases h
      exact .inl rfl
    · rintro (h | ⟨a, u', h, _⟩) <;> cases h
      rfl
  · constructor
    · exact fun h => .inr ⟨a, u, rfl, h⟩
    · rintro (h | ⟨a', u', h, hk⟩) <;> cases h
      exact hk

namespace Gateway

namespace Session

variable (s : Session) (w : Write)

/-- The deadline of the phase cannot be written down for the network. -/
def Overlong (p : Phase) : Prop := s.link = .network ∧ networkLimit ≤ s.timeouts.phase p

/-- **A request that is due**: those before it were answered, and its message is signed. -/
inductive Due (n : Nat) : Operation → Request → Prop
  | write {done : List Call} {message σ : List UInt8} {request : List UInt8 → Request}
      (hr : s.Reached w n done message request) (hσ : s.signer (n + done.length) (sha256 message) = .ok σ) :
      Due n .write (request σ)
  | read {σ : List UInt8} (hσ : s.signer n (sha256 (s.evaluating w).message) = .ok σ) :
      Due n .read ((s.evaluating w).request σ)

variable {s w} {n : Nat}

/-- **What cuts a request off** is a deadline that cannot be written down. -/
theorem outcome_eq_panicked_iff {q : Request} {r : Reply α} :
    s.outcome q r = .error .panicked ↔ s.Overlong q.phase := by
  unfold outcome Overlong
  split
  · rename_i hs
    refine ⟨fun h => ?_, fun h => absurd (hs h.1) (Nat.not_lt.2 h.2)⟩
    cases hq : settle q.phase (s.deadline q) r <;> rw [hq] at h <;> cases h
  · rename_i hs
    obtain ⟨hn, hd⟩ := Classical.not_imp.1 hs
    exact ⟨fun _ => ⟨hn, Nat.not_lt.1 hd⟩, fun _ => rfl⟩

end Session

open Session (Overlong)

theorem Stage.run_cutOff_iff {s : Session} {g : Stage s α β} {t : Trace} :
    g.run.CutOff t ↔ ∃ σ, s.signer t.signatures (sha256 g.message) = .ok σ ∧ s.Overlong (g.request σ).phase := by
  unfold Run.CutOff
  cases hσ : s.signer t.signatures (sha256 g.message) with
  | error e => simp [after_run_unsigned hσ]
  | ok σ =>
    have hcut := Session.outcome_eq_panicked_iff (s := s) (q := g.request σ) (r := g.reply σ)
    simp only [after_run hσ, Except.ok.injEq, exists_eq_left', ← hcut]
    cases s.outcome (g.request σ) (g.reply σ) with
    | error x => simp [Except.bind]
    | ok a =>
      -- what is made of an answer is never cut off
      simp only [Except.bind]
      refine iff_of_false ?_ nofun
      intro h
      cases hl : g.look a <;> rw [hl] at h <;> cases h

namespace Session

variable {s : Session} {w : Write} {t : Trace}

theorem submit_cutOff_iff (ho : s.isOpen = true) :
    (s.submitTransaction w.fresh w.channel w.chaincode w.function w.payload).CutOff t ↔
      ∃ q, s.Due w t.signatures .write q ∧ s.Overlong q.phase := by
  rw [submit_eq_stages w ho, Run.bind_cutOff_iff]
  simp only [Run.bind_cutOff_iff, Stage.run_cutOff_iff, Stage.after_run_eq_ok_iff]
  constructor
  · rintro (⟨σ, hσ, h⟩ | ⟨v, _, ⟨q₁, hq₁, rfl⟩, ⟨σ, hσ, h⟩ | ⟨_, _, ⟨q₂, hq₂, rfl⟩, σ, hσ, h⟩⟩)
    · exact ⟨_, .write .endorse hσ, h⟩
    · exact ⟨_, .write (.submit hq₁) hσ, h⟩
    · exact ⟨_, .write (.commitStatus hq₁ hq₂) hσ, h⟩
  · rintro ⟨_, hd, h⟩
    cases hd with
    | write hr hσ =>
      cases hr with
      | endorse => exact .inl ⟨_, hσ, h⟩
      | submit hq₁ => exact .inr ⟨_, _, ⟨_, hq₁, rfl⟩, .inl ⟨_, hσ, h⟩⟩
      | commitStatus hq₁ hq₂ => exact .inr ⟨_, _, ⟨_, hq₁, rfl⟩, .inr ⟨_, _, ⟨_, hq₂, rfl⟩, _, hσ, h⟩⟩

theorem evaluate_cutOff_iff (ho : s.isOpen = true) :
    (s.evaluateTransaction w.fresh w.channel w.chaincode w.function w.payload).CutOff t ↔
      ∃ q, s.Due w t.signatures .read q ∧ s.Overlong q.phase := by
  rw [evaluate_eq_stage w ho, Stage.run_cutOff_iff]
  constructor
  · rintro ⟨σ, hσ, h⟩
    exact ⟨_, .read hσ, h⟩
  · rintro ⟨_, hd, h⟩
    cases hd with
    | read hσ => exact ⟨_, hσ, h⟩

/-- **A flow is cut off exactly when a request is due** whose deadline cannot be written down. -/
theorem carryOut_cutOff_iff (ho : s.isOpen = true) {op : Operation} :
    (s.carryOut w op).CutOff t ↔ ∃ q, s.Due w t.signatures op q ∧ s.Overlong q.phase := by
  cases op <;>
  · unfold carryOut
    rw [Run.bind_cutOff_iff]
    simp only [Run.CutOff, Run.after_pure, reduceCtorEq, and_false, exists_false, or_false]
    first | exact submit_cutOff_iff ho | exact evaluate_cutOff_iff ho

/-- **A flow that is cut off** is not measured and has reported nothing. -/
theorem carryOut_silent (ho : s.isOpen = true) {op : Operation} (h : (s.carryOut w op).CutOff t) :
    (Run.after t (s.carryOut w op)).2.metrics = t.metrics ∧ (Run.after t (s.carryOut w op)).2.events = t.events := by
  unfold Run.CutOff carryOut at h
  unfold carryOut
  cases op with
  | write =>
    simp only [Run.after_discard] at h ⊢
    rcases hrun : Run.after t (s.submitTransaction w.fresh w.channel w.chaincode w.function w.payload) with ⟨x, u⟩
    have hc : s.Course w t x u := course_of_submit hrun
    rw [hrun] at h
    refine ⟨hc.metrics, ?_⟩
    obtain ⟨he, -⟩ | ⟨-, secs, rfl, -⟩ := hc.warned
    · exact he
    · cases h
  | read =>
    simp only [Run.after_discard] at h ⊢
    rcases hrun : Run.after t (s.evaluateTransaction w.fresh w.channel w.chaincode w.function w.payload) with ⟨x, u⟩
    have he : (s.evaluating w).Ends t x u := ends_of_evaluate ho hrun
    exact ⟨he.metrics, he.silent fun _ => rfl⟩

end Session
end Gateway
end LedgerClient

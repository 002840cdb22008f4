import LedgerClient.Proofs.Gateway.Evaluation
import LedgerClient.Proofs.Gateway.Failure
/-!
# What a session reports

A session measures nothing and, with deadlines that can be written down, is never cut off.  A write warns exactly if
its status did not come in time (`Session.submit_adds`), and a query warns of nothing (`Session.evaluate_adds`).
-/
namespace LedgerClient

variable {α : Type}

/-! ## How a run ended -/

/-- The error that a run ended with, if it did. -/
def errorOf : Except Stop α → Option CallError
  | .error (.failed e) => some e
  | _ => none

/-- The warning about a transaction that was handed in, if it is not known how it ended. -/
def doubt (tx : String) : Option CallError → List Event
  | some (.timeout .commitStatus _) => [.commitUnknown tx]
  | _ => []

theorem doubt_eq_nil {tx : String} {e : CallError} (h : e.phase? ≠ some .commitStatus) : doubt tx (some e) = [] := by
  unfold doubt
  split
  · rename_i he
    cases he
    exact absurd rfl h
  · rfl

/-- The run that ended with `x` was not cut off, and this is what it added to the metrics and the events. -/
structure Adds (ms : List Metric) (es : List Event) (t : Trace) (x : Except Stop α) (u : Trace) : Prop where
  finished : x ≠ .error .panicked
  metrics : u.metrics = t.metrics ++ ms
  events : u.events = t.events ++ es

/-! ## Sessions -/

namespace Gateway

variable {s : Session}

/-- No deadline is too long to be written down. -/
def Session.Timely (s : Session) : Prop := ∀ q, s.deadline q < networkLimit

theorem Session.outcome_finished {q : Request} (hd : s.Timely) (r : Reply α) : s.outcome q r ≠ .error .panicked := by
  unfold outcome
  split
  · cases settle q.phase (s.deadline q) r <;> exact nofun
  · rename_i hs
    exact absurd (fun _ => hd q) hs

section Stages

variable {β γ : Type} {g : Stage s β γ} {t u : Trace} {x : Except Stop γ}

theorem Stage.Ends.metrics (h : g.Ends t x u) : u.metrics = t.metrics := by
  cases h <;> rfl

theorem Stage.Ends.finished (hd : s.Timely) (h : g.Ends t x u) : x ≠ .error .panicked := by
  cases h with
  | unsigned => exact nofun
  | @sent σ hσ =>
    have ho := Session.outcome_finished (q := g.request σ) hd (g.reply σ)
    cases hx : s.outcome (g.request σ) (g.reply σ) with
    | error y =>
      rw [hx] at ho
      exact fun h => ho (by cases h; rfl)
    | ok a =>
      simp only [Except.bind]
      cases g.look a <;> exact nofun

end Stages

namespace Session

variable {w : Write} {t u : Trace}

theorem Course.metrics {x : Except Stop Committed} (h : s.Course w t x u) : u.metrics = t.metrics := by
  cases h with
  | closed => rfl
  | unendorsed h₁ => exact h₁.metrics
  | unsubmitted h₁ h₂ => exact h₂.metrics.trans h₁.metrics
  | submitted h₁ h₂ h₃ => exact h₃.metrics.trans (h₂.metrics.trans h₁.metrics)

theorem Course.finished {x : Except Stop Committed} (hd : s.Timely) (h : s.Course w t x u) :
    x ≠ .error .panicked := by
  cases h with
  | closed => exact nofun
  | unendorsed h₁ => exact fun hx => h₁.finished hd (by cases hx; rfl)
  | unsubmitted _ h₂ => exact fun hx => h₂.finished hd (by cases hx; rfl)
  | submitted _ _ h₃ => exact h₃.finished hd

/-- The signer's errors are not put down to a phase. -/
def SignsPhaseless (s : Session) : Prop := ∀ n d e, s.signer n d = .error e → e.phase? = none

/-- **A write warns exactly if its status did not come in time**, and is not measured. -/
theorem submit_adds (hd : s.Timely) (hs : s.SignsPhaseless) (w : Write) (t : Trace) :
    let ran := Run.after t (s.submitTransaction w.fresh w.channel w.chaincode w.function w.payload)
    Adds [] (doubt (transactionId w.fresh.nonce s.creator) (errorOf ran.1)) t ran.1 ran.2 := by
  intro ran
  rcases hrun : ran with ⟨x, u⟩
  have h : s.Course w t x u := course_of_submit hrun
  refine ⟨h.finished hd, h.metrics.trans (List.append_nil _).symm, ?_⟩
  have hw := h.warned
  rw [proposal_transactionId] at hw
  rcases hw with ⟨he, hn⟩ | ⟨he, secs, hx, _⟩
  · have hnone : doubt (transactionId w.fresh.nonce s.creator) (errorOf x) = [] := by
      unfold doubt
      split
      · rename_i secs hx
        have hx' : x = .error (.failed (.timeout .commitStatus secs)) := by
          rcases x with (e | _) | c <;> cases hx
          rfl
        obtain ⟨_, _, _, _, hσ⟩ := hn secs hx'
        cases hs _ _ _ hσ
      · rfl
    rw [hnone, List.append_nil]
    exact he
  · rw [hx]
    exact he

/-! What is made of an answer is put down to its phase. -/

theorem phase?_of_prepared {r : Message.EndorseResponse} {e : CallError} (h : prepared r = .error e) :
    e.phase? = some .endorse := by
  unfold prepared at h
  split at h <;> cases h
  rfl

theorem phase?_of_committed {tx : String} {r : Message.CommitStatusResponse} {e : CallError}
    (h : committed tx r = .error e) : e.phase? = some .commitStatus := by
  unfold committed at h
  split at h <;> cases h
  rfl

theorem phase?_of_answered {r : Message.EvaluateResponse} {e : CallError} (h : answered r = .error e) :
    e.phase? = some .evaluate := by
  unfold answered at h
  split at h
  · cases h
    rfl
  · split at h <;> cases h
    rfl

/-- The error of a query is the signer's own, or names its one phase. -/
theorem evaluating_phase {e : CallError} (hs : s.SignsPhaseless)
    (h : (s.evaluating w).Ends t (.error (.failed e)) u) : e.phase? ≠ some .commitStatus := by
  obtain hσ | ⟨σ, hf⟩ | ⟨a, hl⟩ := h.of_error ""
  · rw [hs _ _ _ hσ]
    exact nofun
  · rw [hf.phase]
    exact nofun
  · rw [phase?_of_answered hl]
    exact nofun

/-- **A query warns of nothing**, and is not measured. -/
theorem evaluate_adds (ho : s.isOpen = true) (hd : s.Timely) (hs : s.SignsPhaseless) (w : Write) (t : Trace)
    (tx : String) :
    let ran := Run.after t (s.evaluateTransaction w.fresh w.channel w.chaincode w.function w.payload)
    Adds [] (doubt tx (errorOf ran.1)) t ran.1 ran.2 := by
  intro ran
  rcases hrun : ran with ⟨x, u⟩
  have h : (s.evaluating w).Ends t x u := ends_of_evaluate ho hrun
  refine ⟨h.finished hd, h.metrics.trans (List.append_nil _).symm, ?_⟩
  have hnone : doubt tx (errorOf x) = [] := by
    rcases x with (e | _) | bs
    · exact doubt_eq_nil (evaluating_phase hs h)
    · rfl
    · rfl
  rw [hnone, List.append_nil]
  exact h.silent fun _ => rfl

end Session
end Gateway

end LedgerClient

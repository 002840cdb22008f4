import LedgerClient.Proofs.Gateway.Progress
/-!
# How a write fails

A write that fails was let down by its signer, or by the last request it made; where it was then (`Session.Reached`)
says which calls the peer has answered.  The main statement is `submit_failure`: the error is the signer's own or the
one that `Session.Fails` has for that request, and the warning about an unknown status is given with no other.
-/
namespace LedgerClient

/-- The phase an error names. -/
def CallError.phase? : CallError → Option Phase
  | .timeout p _ | .remote p _ | .connection (.failed p _) => some p
  | _ => none

namespace Gateway

open Message

/-- How a stage can fail: it was not signed for, or its request was let down. -/
inductive Stage.Failed {α β : Type} {s : Session} (g : Stage s α β) (tx : String) (t : Trace) (e : CallError) :
    Trace → Prop where
  | unsigned (h : s.signer t.signatures (sha256 g.message) = .error e) :
      Failed g tx t e { t with signatures := t.signatures + 1 }
  | letDown {σ : List UInt8} (h : s.signer t.signatures (sha256 g.message) = .ok σ)
      (hf : s.Fails tx (g.request σ) e) :
      Failed g tx t e { t with
        signatures := t.signatures + 1
        calls := t.calls ++ s.seen (g.request σ)
        events := t.events ++ g.note (s.outcome (g.request σ) (g.reply σ)) }

/-- A stage fails so, if its answers fail as the table says. -/
theorem Stage.Ends.failed {α β : Type} {s : Session} {g : Stage s α β} {t u : Trace} {tx : String} {e : CallError}
    (h : g.Ends t (.error (.failed e)) u)
    (hlook : ∀ σ a e, s.Heard (g.request σ) → (g.reply σ).answer = .ok a → g.look a = .error e →
      s.Fails tx (g.request σ) e) : g.Failed tx t e u := by
  generalize hx : (Except.error (.failed e) : Except Stop β) = x at h
  cases h with
  | unsigned hσ =>
    cases hx
    exact .unsigned hσ
  | @sent σ hσ =>
    refine .letDown hσ ?_
    cases ho : s.outcome (g.request σ) (g.reply σ) with
    | error y =>
      rw [ho] at hx
      cases hx
      exact Session.fails_of_outcome (g.reply_forget σ) ho
    | ok a =>
      obtain ⟨hsend, _, hb⟩ := Session.outcome_ok (g.reply_forget σ) ho
      rw [ho] at hx
      cases hl : g.look a with
      | ok b => simp only [Except.bind, hl] at hx; cases hx
      | error e' =>
        simp only [Except.bind, hl] at hx
        cases hx
        refine hlook σ a e ⟨hsend, ?_⟩ hb.1 hl
        rw [← g.reply_forget σ]
        exact hb.2

/-- The error of a stage is its signer's, or comes of its call, or is what is made of the answer. -/
theorem Stage.Ends.of_error {α β : Type} {s : Session} {g : Stage s α β} {t u : Trace} {e : CallError}
    (h : g.Ends t (.error (.failed e)) u) (tx : String) :
    s.signer t.signatures (sha256 g.message) = .error e ∨ (∃ σ, s.Fails tx (g.request σ) e) ∨
      ∃ a, g.look a = .error e := by
  generalize hx : (Except.error (.failed e) : Except Stop β) = x at h
  cases h with
  | unsigned hσ =>
    cases hx
    exact .inl hσ
  | @sent σ hσ =>
    cases ho : s.outcome (g.request σ) (g.reply σ) with
    | error y =>
      rw [ho] at hx
      cases hx
      exact .inr (.inl ⟨σ, Session.fails_of_outcome (g.reply_forget σ) ho⟩)
    | ok a =>
      rw [ho] at hx
      cases hl : g.look a with
      | ok b => simp only [Except.bind, hl] at hx; cases hx
      | error e' =>
        simp only [Except.bind, hl] at hx
        cases hx
        exact .inr (.inr ⟨a, hl⟩)

/-- A stage that has nothing to report. -/
theorem Stage.Ends.silent {α β : Type} {s : Session} {g : Stage s α β} {t u : Trace} {x : Except Stop β}
    (hn : ∀ y, g.note y = []) (h : g.Ends t x u) : u.events = t.events := by
  cases h with
  | unsigned => rfl
  | sent => simp only [hn, List.append_nil]

namespace Session

variable {s : Session} {w : Write} {q : Request} {tx : String} {e : CallError} {n : Nat}

/-- Errors name the phase of the request that was let down. -/
theorem Fails.phase (h : s.Fails tx q e) : e.phase? = some q.phase := by
  cases h <;> rfl

/-! ## Where a write is -/

variable (s w)

/-- **Where a write can be**: the calls that were answered, what is signed next, and what is sent then. -/
inductive Reached (n : Nat) : List Call → List UInt8 → (List UInt8 → Request) → Prop where
  | endorse : Reached n [] (s.endorsing w).message (s.endorsing w).request
  | submit {q₁ : Request} {v : Envelope} (h₁ : (s.endorsing w).Passed n q₁ v) :
      Reached n [s.sent q₁] (s.submitting w v).message (s.submitting w v).request
  | commitStatus {q₁ q₂ : Request} {v : Envelope} (h₁ : (s.endorsing w).Passed n q₁ v)
      (h₂ : (s.submitting w v).Passed (n + 1) q₂ ()) :
      Reached n [s.sent q₁, s.sent q₂] (s.watching w).message (s.watching w).request

/-- The error is the signer's own. -/
def Unsigned (n : Nat) (e : CallError) : Prop :=
  ∃ done message request, s.Reached w n done message request ∧
    s.signer (n + done.length) (sha256 message) = .error e

/-- **Why a write fails**, and with which calls. -/
inductive Failure (n : Nat) : CallError → List Call → Prop where
  | unsigned {done : List Call} {message : List UInt8} {request : List UInt8 → Request} {e : CallError}
      (hr : s.Reached w n done message request) (h : s.signer (n + done.length) (sha256 message) = .error e) :
      Failure n e done
  | failed {done : List Call} {message : List UInt8} {request : List UInt8 → Request} {σ : List UInt8} {e : CallError}
      (hr : s.Reached w n done message request) (hσ : s.signer (n + done.length) (sha256 message) = .ok σ)
      (h : s.Fails (s.proposal w).transactionId (request σ) e) : Failure n e (done ++ s.seen (request σ))

variable {s w}

theorem endorsing_failed {t u : Trace} (h : (s.endorsing w).Ends t (.error (.failed e)) u) :
    (s.endorsing w).Failed (s.proposal w).transactionId t e u := by
  refine h.failed fun σ a e hh ha hl => ?_
  simp only [endorsing, prepared] at hh ha hl ⊢
  cases hp : a.preparedTransaction with
  | some v => rw [hp] at hl; cases hl
  | none =>
    rw [hp] at hl
    cases hl
    exact .unprepared hh ha hp

theorem submitting_failed {t u : Trace} {v : Envelope} (h : (s.submitting w v).Ends t (.error (.failed e)) u) :
    (s.submitting w v).Failed (s.proposal w).transactionId t e u := by
  refine h.failed fun σ a e _ _ hl => ?_
  cases hl

theorem watching_failed {t u : Trace} (h : (s.watching w).Ends t (.error (.failed e)) u) :
    (s.watching w).Failed (s.proposal w).transactionId t e u := by
  refine h.failed fun σ a e hh ha hl => ?_
  simp only [watching, committed] at hh ha hl ⊢
  split at hl
  · cases hl
  · rename_i hv
    cases hl
    exact .invalidated hh ha hv

/-- A write that fails does so for one of the reasons. -/
theorem Course.failure (ho : s.isOpen = true) {t u : Trace} (h : s.Course w t (.error (.failed e)) u) :
    ∃ calls, u.calls = t.calls ++ calls ∧ s.Failure w t.signatures e calls := by
  cases h with
  | closed hc =>
    rw [ho] at hc
    cases hc
  | unendorsed h₁ =>
    cases endorsing_failed h₁ with
    | unsigned hσ => exact ⟨[], (List.append_nil _).symm, .unsigned .endorse hσ⟩
    | letDown hσ hf => exact ⟨_, rfl, .failed .endorse hσ hf⟩
  | unsubmitted h₁ h₂ =>
    obtain ⟨q₁, hq₁, rfl⟩ := h₁.of_ok
    cases submitting_failed h₂ with
    | unsigned hσ => exact ⟨_, rfl, .unsigned (.submit hq₁) hσ⟩
    | letDown hσ hf => exact ⟨_, List.append_assoc .., .failed (.submit hq₁) hσ hf⟩
  | submitted h₁ h₂ h₃ =>
    obtain ⟨q₁, hq₁, rfl⟩ := h₁.of_ok
    obtain ⟨q₂, hq₂, rfl⟩ := h₂.of_ok
    cases watching_failed h₃ with
    | unsigned hσ => exact ⟨_, List.append_assoc .., .unsigned (.commitStatus hq₁ hq₂) hσ⟩
    | letDown hσ hf =>
      exact ⟨_, by rw [List.append_assoc, List.append_assoc]; rfl, .failed (.commitStatus hq₁ hq₂) hσ hf⟩

/-! ## There is one reason -/

/-- A request that was answered in time is let down by its answer alone. -/
theorem Fails.of_answered (h : s.Fails tx q e) (hh : s.Heard q) (ha : (s.peer.reply q).answer = .ok ()) :
    (∃ q' r, q = .endorse q' ∧ (s.peer.endorse q').answer = .ok r ∧ r.preparedTransaction = none) ∨
      ∃ q' r, q = .commitStatus q' ∧ (s.peer.commitStatus q').answer = .ok r ∧ r.result ≠ valid := by
  cases h with
  | late hl => exact absurd hh hl
  | expired _ hr => rw [hr] at ha; cases ha
  | lost _ hr => rw [hr] at ha; cases ha
  | refused _ hr => rw [hr] at ha; cases ha
  | unreachable _ hr => rw [hr] at ha; cases ha
  | unprepared _ hr hp => exact .inl ⟨_, _, rfl, hr, hp⟩
  | invalidated _ hr hv => exact .inr ⟨_, _, rfl, hr, hv⟩

/-- The stage was signed for, and its request not let down. -/
def Over (s : Session) (n : Nat) (message : List UInt8) (request : List UInt8 → Request) : Prop :=
  ∃ σ, s.signer n (sha256 message) = .ok σ ∧ ∀ tx e, ¬ s.Fails tx (request σ) e

theorem Over.signed {message : List UInt8} {request : List UInt8 → Request} (h : s.Over n message request) :
    s.signer n (sha256 message) ≠ .error e := by
  obtain ⟨σ, hσ, _⟩ := h
  rw [hσ]
  exact nofun

theorem Over.not_fails {message σ : List UInt8} {request : List UInt8 → Request} (h : s.Over n message request)
    (hσ : s.signer n (sha256 message) = .ok σ) : ¬ s.Fails tx (request σ) e := by
  obtain ⟨σ', hσ', hf⟩ := h
  obtain rfl : σ = σ' := Except.ok.inj (hσ.symm.trans hσ')
  exact hf tx e

theorem endorsing_over {v : Envelope} (h : (s.endorsing w).Passed n q v) :
    s.Over n (s.endorsing w).message (s.endorsing w).request := by
  obtain ⟨q, rfl⟩ := endorsing_signed h.signed
  obtain ⟨σ, hσ, hq⟩ := h.signed
  refine ⟨σ, hσ, fun tx e hf => ?_⟩
  obtain ⟨r, hb, hp⟩ := endorse_passed h
  rw [← hq] at hf
  rcases hf.of_answered h.answered.1 h.answered.2 with ⟨_, r', hq', hr, hn⟩ | ⟨_, _, hq', _⟩ <;> cases hq'
  rw [hb.1] at hr
  cases hr
  rw [hp] at hn
  cases hn

theorem submitting_over {v : Envelope} (h : (s.submitting w v).Passed n q ()) :
    s.Over n (s.submitting w v).message (s.submitting w v).request := by
  obtain ⟨q, rfl⟩ := submitting_signed h.signed
  obtain ⟨σ, hσ, hq⟩ := h.signed
  refine ⟨σ, hσ, fun tx e hf => ?_⟩
  rw [← hq] at hf
  rcases hf.of_answered h.answered.1 h.answered.2 with ⟨_, _, hq', _⟩ | ⟨_, _, hq', _⟩ <;> cases hq'

/-- Of two places where a write can be, one is over unless they are the same. -/
theorem Reached.same_or_over {d d' : List Call} {m m' : List UInt8} {r r' : List UInt8 → Request}
    (h : s.Reached w n d m r) (h' : s.Reached w n d' m' r') :
    (d = d' ∧ m = m' ∧ r = r') ∨ s.Over (n + d.length) m r ∨ s.Over (n + d'.length) m' r' := by
  cases h with
  | endorse =>
    cases h' with
    | endorse => exact .inl ⟨rfl, rfl, rfl⟩
    | submit h₁ | commitStatus h₁ _ => exact .inr (.inl (endorsing_over h₁))
  | submit h₁ =>
    cases h' with
    | endorse => exact .inr (.inr (endorsing_over h₁))
    | submit h₁' =>
      obtain ⟨rfl, rfl⟩ := h₁.unique h₁'
      exact .inl ⟨rfl, rfl, rfl⟩
    | commitStatus h₁' h₂' =>
      obtain ⟨rfl, rfl⟩ := h₁.unique h₁'
      exact .inr (.inl (submitting_over h₂'))
  | commitStatus h₁ h₂ =>
    cases h' with
    | endorse => exact .inr (.inr (endorsing_over h₁))
    | submit h₁' =>
      obtain ⟨rfl, rfl⟩ := h₁.unique h₁'
      exact .inr (.inr (submitting_over h₂))
    | commitStatus h₁' h₂' =>
      obtain ⟨rfl, rfl⟩ := h₁.unique h₁'
      obtain ⟨rfl, _⟩ := h₂.unique h₂'
      exact .inl ⟨rfl, rfl, rfl⟩

/-- What was signed for and let down is not the signer's fault. -/
theorem Reached.not_unsigned {done : List Call} {message σ : List UInt8} {request : List UInt8 → Request}
    {e' : CallError} (hr : s.Reached w n done message request)
    (hσ : s.signer (n + done.length) (sha256 message) = .ok σ) (hf : s.Fails tx (request σ) e) :
    ¬ s.Unsigned w n e' := by
  rintro ⟨done', message', request', hr', hσ'⟩
  rcases hr.same_or_over hr' with ⟨rfl, rfl, _⟩ | ho | ho
  · cases hσ.symm.trans hσ'
  · exact ho.not_fails hσ hf
  · exact ho.signed hσ'

/-- **A write fails for one reason only.** -/
theorem Failure.unique {e' : CallError} {calls calls' : List Call} (h : s.Failure w n e calls)
    (h' : s.Failure w n e' calls') : e = e' ∧ calls = calls' := by
  cases h with
  | unsigned hr hσ =>
    cases h' with
    | unsigned hr' hσ' =>
      rcases hr.same_or_over hr' with ⟨rfl, rfl, _⟩ | ho | ho
      · exact ⟨Except.error.inj (hσ.symm.trans hσ'), rfl⟩
      · exact absurd hσ ho.signed
      · exact absurd hσ' ho.signed
    | failed hr' hσ' hf' => exact absurd ⟨_, _, _, hr, hσ⟩ (hr'.not_unsigned hσ' hf')
  | failed hr hσ hf =>
    cases h' with
    | unsigned hr' hσ' => exact absurd ⟨_, _, _, hr', hσ'⟩ (hr.not_unsigned hσ hf)
    | failed hr' hσ' hf' =>
      rcases hr.same_or_over hr' with ⟨rfl, rfl, rfl⟩ | ho | ho
      · cases hσ.symm.trans hσ'
        exact ⟨hf.unique hf', rfl⟩
      · exact absurd hf (ho.not_fails hσ)
      · exact absurd hf' (ho.not_fails hσ')

/-- An error that names endorsing and is not the signer's own comes before anything is submitted. -/
theorem Failure.not_submitted {calls : List Call} (h : s.Failure w n e calls) (hp : e.phase? = some .endorse)
    (hu : ¬ s.Unsigned w n e) : ∀ c ∈ calls, c.request.phase ≠ .submit := by
  cases h with
  | unsigned hr hσ => exact absurd ⟨_, _, _, hr, hσ⟩ hu
  | @failed _ _ _ σ _ hr hσ hf =>
    have hq := hf.phase
    rw [hp, Option.some.injEq] at hq
    cases hr with
    | submit | commitStatus => cases hq
    | endorse =>
      intro c hc
      rcases s.seen_eq ((s.endorsing w).request σ) with h0 | h1
      · rw [h0] at hc
        cases hc
      · rw [h1] at hc
        obtain rfl := List.mem_singleton.1 hc
        exact nofun

/-! ## The warning -/

theorem warning_eq_nil_or (y : Except Stop CommitStatusResponse) :
    (∃ p secs, y = .error (.failed (.timeout p secs)) ∧ warning tx y = [.commitUnknown tx]) ∨
      (∀ p secs, y ≠ .error (.failed (.timeout p secs))) ∧ warning tx y = [] := by
  unfold warning
  split
  · exact .inl ⟨_, _, rfl, rfl⟩
  · rename_i h
    exact .inr ⟨fun p secs hy => h p secs hy, rfl⟩

/-- The last stage warns about a status that did not come in time, and of nothing else. -/
theorem watching_warned {t u : Trace} {x : Except Stop Committed} (h : (s.watching w).Ends t x u) :
    (u.events = t.events ∧ ∀ secs, x = .error (.failed (.timeout .commitStatus secs)) →
      s.signer t.signatures (sha256 (s.watching w).message) = .error (.timeout .commitStatus secs)) ∨
    (u.events = t.events ++ [.commitUnknown (s.proposal w).transactionId] ∧
      ∃ σ secs, s.signer t.signatures (sha256 (s.watching w).message) = .ok σ ∧
        s.Fails (s.proposal w).transactionId ((s.watching w).request σ) (.timeout .commitStatus secs) ∧
        x = .error (.failed (.timeout .commitStatus secs))) := by
  cases h with
  | unsigned hσ => exact .inl ⟨rfl, fun secs hx => by cases hx; exact hσ⟩
  | @sent σ hσ =>
    rcases warning_eq_nil_or (s.outcome ((s.watching w).request σ) ((s.watching w).reply σ)) with
      ⟨p, secs, hy, hn⟩ | ⟨hy, hn⟩
    · have hf : s.Fails (s.proposal w).transactionId _ _ := fails_of_outcome ((s.watching w).reply_forget σ) hy
      cases hf.phase
      exact .inr ⟨congrArg (t.events ++ ·) hn, σ, secs, hσ, hf, by rw [hy]; rfl⟩
    · refine .inl ⟨(congrArg (t.events ++ ·) hn).trans (List.append_nil _), fun secs hx => ?_⟩
      cases ho : s.outcome ((s.watching w).request σ) ((s.watching w).reply σ) with
      | error y =>
        rw [ho] at hx
        cases hx
        exact absurd ho (hy _ _)
      | ok a =>
        rw [ho] at hx
        simp only [Except.bind, watching, committed] at hx
        split at hx <;> cases hx

/-- **The warning is given for a status that did not come in time**, and for nothing else. -/
theorem Course.warned {t u : Trace} {x : Except Stop Committed} (h : s.Course w t x u) :
    (u.events = t.events ∧ ∀ secs, x = .error (.failed (.timeout .commitStatus secs)) →
      s.Unsigned w t.signatures (.timeout .commitStatus secs)) ∨
    (u.events = t.events ++ [.commitUnknown (s.proposal w).transactionId] ∧
      ∃ secs, x = .error (.failed (.timeout .commitStatus secs)) ∧
        ¬ s.Unsigned w t.signatures (.timeout .commitStatus secs)) := by
  cases h with
  | closed => exact .inl ⟨rfl, fun _ hx => by cases hx⟩
  | unendorsed h₁ =>
    refine .inl ⟨h₁.silent fun _ => rfl, fun secs hx => ?_⟩
    cases hx
    cases endorsing_failed h₁ with
    | unsigned hσ => exact ⟨_, _, _, .endorse, hσ⟩
    | letDown _ hf => cases hf.phase
  | unsubmitted h₁ h₂ =>
    obtain ⟨q₁, hq₁, rfl⟩ := h₁.of_ok
    have hs : u.events = t.events := by rw [h₂.silent fun _ => rfl]
    refine .inl ⟨hs, fun secs hx => ?_⟩
    cases hx
    cases submitting_failed h₂ with
    | unsigned hσ => exact ⟨_, _, _, .submit hq₁, hσ⟩
    | letDown _ hf => cases hf.phase
  | submitted h₁ h₂ h₃ =>
    obtain ⟨q₁, hq₁, rfl⟩ := h₁.of_ok
    obtain ⟨q₂, hq₂, rfl⟩ := h₂.of_ok
    have hr := Reached.commitStatus hq₁ hq₂
    rcases watching_warned h₃ with ⟨he, hn⟩ | ⟨he, σ, secs, hσ, hf, hx⟩
    · exact .inl ⟨he, fun secs hx => ⟨_, _, _, hr, hn secs hx⟩⟩
    · exact .inr ⟨he, secs, hx, hr.not_unsigned hσ hf⟩

/-! ## All of it -/

/-- The calls of a write, and if it fails, the reason for it. -/
theorem Course.calls_failure (ho : s.isOpen = true) {t u : Trace} {x : Except Stop Committed} (h : s.Course w t x u) :
    ∃ calls, u.calls = t.calls ++ calls ∧ ∀ e, x = .error (.failed e) → s.Failure w t.signatures e calls := by
  rcases x with (e | _) | c
  · obtain ⟨calls, hc, hf⟩ := h.failure ho
    exact ⟨calls, hc, fun e' hx => by cases hx; exact hf⟩
  all_goals
    obtain ⟨calls, hc, _⟩ := h.footprint
    exact ⟨calls, hc, nofun⟩

/-- **The error of a write says how far it got.**  There is one reason for it, and it is the error of that reason; one
that names endorsing comes before anything is submitted, unless the signer made it; and the warning is given exactly
for a status that did not come in time. -/
theorem submit_failure (s : Session) (fresh : Fresh) (channel chaincode function : String) (payload : List UInt8)
    (t : Trace) (ho : s.isOpen = true) :
    let w : Write := ⟨fresh, channel, chaincode, function, payload⟩
    let run := Run.after t (s.submitTransaction fresh channel chaincode function payload)
    let warned := t.events ++ [.commitUnknown (transactionId fresh.nonce s.creator)]
    (∀ words p text, (ConnectionCause.failed p text).message words = p.name ++ " failed: " ++ text) ∧
    (∃ calls, run.2.calls = t.calls ++ calls ∧ ∀ e, run.1 = .error (.failed e) →
      (∀ e' calls', s.Failure w t.signatures e' calls' ↔ e' = e ∧ calls' = calls) ∧
      (e.phase? = some .endorse → ¬ s.Unsigned w t.signatures e → ∀ c ∈ calls, c.request.phase ≠ .submit)) ∧
    (run.2.events = t.events ∨ run.2.events = warned) ∧
    (run.2.events = warned ↔ ∃ secs, run.1 = .error (.failed (.timeout .commitStatus secs)) ∧
      ¬ s.Unsigned w t.signatures (.timeout .commitStatus secs)) := by
  intro w run warned
  rcases hrun : run with ⟨x, u⟩
  have h : s.Course w t x u := course_of_submit hrun
  refine ⟨fun _ _ _ => rfl, ?_, ?_⟩
  · obtain ⟨calls, hc, hf⟩ := h.calls_failure ho
    refine ⟨calls, hc, fun e hx => ⟨fun e' calls' => ⟨fun hf' => hf'.unique (hf e hx), ?_⟩, (hf e hx).not_submitted⟩⟩
    rintro ⟨rfl, rfl⟩
    exact hf _ hx
  · have hne : t.events ≠ warned := fun he => List.cons_ne_nil _ _ (List.self_eq_append_right.1 he)
    have hw := h.warned
    rw [s.proposal_transactionId w] at hw
    rcases hw with ⟨he, hn⟩ | ⟨he, hs⟩
    · refine ⟨.inl he, fun hw => absurd (he.symm.trans hw) hne, ?_⟩
      rintro ⟨secs, hx, hu⟩
      exact absurd (hn secs hx) hu
    · exact ⟨.inr he, fun _ => hs, fun _ => he⟩

/-! A session whose peer takes too long to answer how a transaction ended. -/

/-- A certificate with nothing in it that could be left out. -/
def smallCertificate : List UInt8 :=
  [0x30, 0x3C, 0x30, 0x32, 0x02, 0x01, 0x01, 0x30, 0x03, 0x06, 0x01, 0x2A, 0x30, 0x00, 0x30, 0x1A, 0x17, 0x0B]
    ++ utf8 "2501010000Z" ++ [0x17, 0x0B] ++ utf8 "3501010000Z"
    ++ [0x30, 0x00, 0x30, 0x08, 0x30, 0x03, 0x06, 0x01, 0x2A, 0x03, 0x01, 0x00, 0x30, 0x03, 0x06, 0x01, 0x2A, 0x03,
      0x01, 0x00]

theorem smallCertificate_names : X509.certificate smallCertificate = some ⟨[], []⟩ := by decide +kernel

def stalled : Session where
  identity := ⟨"Org1MSP", ⟨smallCertificate, ⟨[], []⟩, smallCertificate_names⟩⟩
  signer _ d := .ok d
  peer :=
    { endorse := fun _ => { answer := .ok { preparedTransaction := some {} } }
      submit := fun _ => { answer := .ok {} }
      commitStatus := fun _ => { answer := .ok {}, delayMs := 60001 }
      evaluate := fun _ => { answer := .unreachable "" } }
  timeouts := {}

theorem submit_failure_stalled :
    stalled.isOpen = true ∧
      ∃ calls, (Run.after {} (stalled.submitTransaction ⟨[], {}⟩ "c" "b" "f" [])).2.calls = calls ∧
        stalled.Failure ⟨⟨[], {}⟩, "c", "b", "f", []⟩ 0 (.timeout .commitStatus 60) calls := by
  obtain ⟨_, ⟨calls, hc, hf⟩, _⟩ := stalled.submit_failure ⟨[], {}⟩ "c" "b" "f" [] {} rfl
  exact ⟨rfl, calls, hc, ((hf (.timeout .commitStatus 60) rfl).1 _ _).2 ⟨rfl, rfl⟩⟩

/-- The session of `stalled`, but for the signature after `n` others there is the error only. -/
def unsignedAfter (n : Nat) (e : CallError) : Session :=
  { stalled with signer := fun m d => if m = n then .error e else .ok d }

/-- It is not so that an error that names endorsing always comes before anything is submitted, be it the phase of the
error or a word of its text, and not so that the warning goes with every timeout of the last phase: a signer can say
anything. -/
theorem submit_failure_not_told_by_error :
    let ran := fun (s : Session) => Run.after {} (s.submitTransaction ⟨[], {}⟩ "c" "b" "f" [])
    (¬ ∀ (s : Session) (e : CallError), s.isOpen = true → (ran s).1 = .error (.failed e) →
      e.phase? = some .endorse → ∀ c ∈ (ran s).2.calls, c.request.phase ≠ .submit) ∧
    (¬ ∀ (s : Session) (e : CallError) (words : Wording) (before after : String), s.isOpen = true →
      (ran s).1 = .error (.failed e) → e.message words = before ++ "endorse failed: " ++ after →
        ∀ c ∈ (ran s).2.calls, c.request.phase ≠ .submit) ∧
    ¬ ∀ (s : Session) (secs : Nat), s.isOpen = true →
      (ran s).1 = .error (.failed (.timeout .commitStatus secs)) →
        (ran s).2.events = [.commitUnknown (transactionId [] s.creator)] := by
  intro ran
  refine ⟨fun h => ?_, fun h => ?_, fun h => ?_⟩
  · exact h (unsignedAfter 2 (.remote .endorse (.other "refused"))) _ rfl rfl rfl _ (.tail _ (.head _)) rfl
  · exact h (unsignedAfter 2 (.identity (.other "endorse failed: refused"))) _
      ⟨fun _ => "", fun _ => "", fun _ => "", fun _ => "", fun _ => ""⟩ "Identity error: " "refused" rfl rfl rfl _
      (.tail _ (.head _)) rfl
  · exact absurd (h (unsignedAfter 0 (.timeout .commitStatus 60)) 60 rfl rfl) nofun

end Session
end Gateway
end LedgerClient

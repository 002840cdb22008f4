import LedgerClient.Proofs.Gateway.Query
/-!
# Every call in its own time

A call is cut off exactly if its answer takes longer than the seconds of its own phase (`Session.Late`).  The time that
other calls take counts for nothing, and so does the time that is left when an answer comes (`Session.SamePace`); so a
flow that succeeds does the same with longer deadlines.  The main statement is `own_deadline_counts`.
-/
namespace LedgerClient.Gateway

open Message

namespace Session

variable (s : Session)

def withTimeouts (T : Config.Timeouts) : Session := { s with timeouts := T }

def withPeer (p : Peer) : Session := { s with peer := p }

/-- The answer takes longer than the seconds of the request's own phase. -/
def Late (q : Request) : Prop := s.timeouts.phase q.phase * 1000 < (s.peer.reply q).delayMs

/-- The peer itself says that the time is over. -/
def Expired (q : Request) : Prop := ∃ text, (s.peer.reply q).answer = .refused .deadlineExceeded text

/-- **A peer at the same pace** is late with the same requests, and gives the same answers to all others, each in a
time of its own. -/
structure SamePace (p : Peer) : Prop where
  late : ∀ q, s.timeouts.phase q.phase * 1000 < (p.reply q).delayMs ↔ s.Late q
  reached : ∀ q, (p.reply q).reached = (s.peer.reply q).reached
  endorse : ∀ q, ¬ s.Late (.endorse q) → (p.endorse q).answer = (s.peer.endorse q).answer
  submit : ∀ q, ¬ s.Late (.submit q) → (p.submit q).answer = (s.peer.submit q).answer
  commitStatus : ∀ q, ¬ s.Late (.commitStatus q) → (p.commitStatus q).answer = (s.peer.commitStatus q).answer
  evaluate : ∀ q, ¬ s.Late (.evaluate q) → (p.evaluate q).answer = (s.peer.evaluate q).answer

/-- **Each of the calls has its own time**: only the last can be late, and the flow ends with a timeout of a call's phase
that nobody made up exactly if the call is late or the peer says so.  What the signer can make up is `own`. -/
structure InOwnTime {β : Type} (calls : List Call) (x : Except Stop β) (own : CallError → Prop) : Prop where
  sent : ∀ c ∈ calls, c = s.sent c.request ∧ s.Sendable c.request
  in_time : ∀ c ∈ calls.dropLast, ¬ s.Late c.request
  cut_off : ∀ c ∈ calls, x = .error (.failed (.timeout c.request.phase c.deadline)) ∧
    ¬ own (.timeout c.request.phase c.deadline) ↔ s.Late c.request ∨ s.Expired c.request

variable {s} {α β : Type}

/-! ## Late calls -/

theorem heard_iff {q : Request} : s.Heard q ↔ s.Sendable q ∧ ¬ s.Late q := by
  rw [Heard, Late, deadline, Nat.not_lt]

/-- **A request that can be sent runs into a timeout** exactly if it is late or the peer says so. -/
theorem fails_timeout_iff (tx : String) {q : Request} (hs : s.Sendable q) :
    s.Fails tx q (.timeout q.phase (s.deadline q)) ↔ s.Late q ∨ s.Expired q := by
  constructor
  · intro h
    generalize he : CallError.timeout q.phase (s.deadline q) = e at h
    cases h with
    | late hl => exact .inl (Classical.byContradiction fun h => hl (heard_iff.2 ⟨hs, h⟩))
    | expired _ ha => exact .inr ⟨_, ha⟩
    | _ => cases he
  · intro h
    by_cases hl : s.Late q
    · exact .late fun hh => (heard_iff.1 hh).2 hl
    · obtain ⟨text, ha⟩ := h.resolve_left hl
      exact .expired (heard_iff.2 ⟨hs, hl⟩) ha

theorem sendable_of_mem_seen {q : Request} {c : Call} (h : c ∈ s.seen q) :
    c = s.sent q ∧ s.Sendable q := by
  unfold seen at h
  split at h
  · rename_i hs
    exact ⟨List.mem_singleton.1 h, hs.1⟩
  · cases h

end Session

/-- **How a stage ends whose request was seen**: it was signed for, and the request is answered in time, and its answer
is looked at, or the stage fails as the request does. -/
theorem Stage.Ends.of_seen {α β : Type} {s : Session} {g : Stage s α β} {t u : Trace} {x : Except Stop β} {c : Call}
    (h : g.Ends t x u) (hc : u.calls = t.calls ++ [c]) :
    ∃ σ, s.signer t.signatures (sha256 g.message) = .ok σ ∧ c = s.sent (g.request σ) ∧ s.Sendable (g.request σ) ∧
      ((s.Heard (g.request σ) ∧ (s.peer.reply (g.request σ)).answer = .ok () ∧
          ∃ a, x = (g.look a).mapError .failed) ∨
        ∃ e, x = .error (.failed e) ∧ ∀ tx, s.Fails tx (g.request σ) e) := by
  cases h with
  | unsigned => exact absurd (List.self_eq_append_right.1 hc) (List.cons_ne_nil _ _)
  | @sent σ hσ =>
    have hseen : s.seen (g.request σ) = [c] := List.append_cancel_left hc
    obtain ⟨rfl, hs⟩ := Session.sendable_of_mem_seen (hseen ▸ List.mem_singleton_self c)
    refine ⟨σ, hσ, rfl, hs, ?_⟩
    cases ho : s.outcome (g.request σ) (g.reply σ) with
    | ok a =>
      obtain ⟨-, -, ha, hd⟩ := Session.outcome_ok (g.reply_forget σ) ho
      refine .inl ⟨⟨hs, ?_⟩, ?_, a, rfl⟩
      · rw [← g.reply_forget σ]
        exact hd
      · rw [← g.reply_forget σ, Reply.forget, ha]
    | error y =>
      cases y with
      | failed e => exact .inr ⟨e, rfl, fun tx => Session.fails_of_outcome (g.reply_forget σ) ho⟩
      | panicked =>
        obtain ⟨hn, hl⟩ := Session.outcome_eq_panicked_iff.1 ho
        exact absurd (hs hn) (Nat.not_lt.2 hl)

namespace Session

variable {s : Session} {w : Write} {t u : Trace} {n : Nat} {q : Request} {own : CallError → Prop}

theorem InOwnTime.none {β : Type} {x : Except Stop β} : s.InOwnTime [] x own := ⟨nofun, nofun, nofun⟩

/-- Only the error that the flow ends with matters, and whether the signer makes up a timeout. -/
theorem InOwnTime.map {β γ : Type} {calls : List Call} {x : Except Stop β} {own' : CallError → Prop}
    (h : s.InOwnTime calls x own) (f : β → γ) (hown : ∀ p secs, own' (.timeout p secs) ↔ own (.timeout p secs)) :
    s.InOwnTime calls (x.map f) own' := by
  refine ⟨h.sent, h.in_time, fun c hc => ?_⟩
  have hx : ∀ e, x.map f = .error e ↔ x = .error e := fun e => by cases x <;> simp [Except.map]
  rw [hx, hown]
  exact h.cut_off c hc

/-- **The one call of a stage has its own time**, if what is made of an answer is no timeout, and nobody makes up an
error for a stage that is signed and fails as its request does. -/
theorem InOwnTime.of_ends {α β γ : Type} {g : Stage s α β} {y : Except Stop β} (h : g.Ends t y u)
    (hlook : ∀ a p secs, g.look a ≠ .error (.timeout p secs))
    (hown : ∀ σ e, s.signer t.signatures (sha256 g.message) = .ok σ → s.Fails "" (g.request σ) e → ¬ own e)
    {x : Except Stop γ} (hx : ∀ e, x = .error e ↔ y = .error e) :
    ∃ calls, u.calls = t.calls ++ calls ∧ s.InOwnTime calls x own := by
  rcases h.calls with hu | ⟨q, -, hu⟩
  · exact ⟨[], by rw [hu, List.append_nil], .none⟩
  obtain ⟨σ, hσ, hq, hs, hend⟩ := h.of_seen hu
  obtain rfl := sent_inj.1 hq
  refine ⟨_, hu, List.forall_mem_singleton.2 ⟨rfl, hs⟩, nofun, List.forall_mem_singleton.2 ?_⟩
  obtain ⟨hh, ha, a, rfl⟩ | ⟨e, rfl, hf⟩ := hend
  · refine iff_of_false (fun ⟨hx', _⟩ => ?_) ?_
    · have hl := (hx _).1 hx'
      cases hga : g.look a with
      | ok b => rw [hga] at hl; cases hl
      | error e =>
        rw [hga] at hl
        cases hl
        exact hlook _ _ _ hga
    · rintro (hl | ⟨text, hr⟩)
      · exact (heard_iff.1 hh).2 hl
      · cases ha.symm.trans hr
  · rw [hx, sent_request, sent_deadline, ← fails_timeout_iff "" hs]
    constructor
    · rintro ⟨hx', -⟩
      cases hx'
      exact hf ""
    · intro h
      rw [(hf "").unique h]
      exact ⟨rfl, hown σ _ hσ h⟩

/-! ## A query -/

theorem answered_ne_timeout (r : EvaluateResponse) (p : Phase) (secs : Nat) :
    answered r ≠ .error (.timeout p secs) := by
  unfold answered
  cases r.result with
  | none => exact nofun
  | some a =>
    dsimp only
    split <;> exact nofun

theorem evaluate_inOwnTime {x : Except Stop (List UInt8)}
    (h : Run.after t (s.evaluateTransaction w.fresh w.channel w.chaincode w.function w.payload) = (x, u)) :
    ∃ calls, u.calls = t.calls ++ calls ∧ s.InOwnTime calls x fun _ => False := by
  cases ho : s.isOpen with
  | false =>
    rw [evaluate_eq_closed w ho, Run.after_bind, after_sign] at h
    refine ⟨[], ?_, .none⟩
    rw [List.append_nil]
    cases hσ : s.signer t.signatures (sha256 (s.proposal w).bytes) <;> rw [hσ] at h <;> cases h <;> rfl
  | true => exact InOwnTime.of_ends (ends_of_evaluate ho h) answered_ne_timeout (fun _ _ _ _ => id) fun _ => .rfl

/-! ## A write -/

theorem prepared_ne_timeout (r : EndorseResponse) (p : Phase) (secs : Nat) : prepared r ≠ .error (.timeout p secs) := by
  unfold prepared
  split <;> exact nofun

theorem committed_ne_timeout (tx : String) (r : CommitStatusResponse) (p : Phase) (secs : Nat) :
    committed tx r ≠ .error (.timeout p secs) := by
  unfold committed
  split <;> exact nofun

/-- A call that was answered in time goes before those that follow it, unless they end with a timeout of its phase. -/
theorem InOwnTime.cons {α β γ : Type} {g : Stage s α β} {b : β}
    {x : Except Stop γ} {calls : List Call} (hq : g.Passed n q b) (h : s.InOwnTime calls x own)
    (hx : x = .error (.failed (.timeout q.phase (s.deadline q))) → own (.timeout q.phase (s.deadline q))) :
    s.InOwnTime (s.sent q :: calls) x own := by
  obtain ⟨hh, ha⟩ := hq.answered
  have hl : ¬ s.Late q := (heard_iff.1 hh).2
  refine ⟨List.forall_mem_cons.2 ⟨⟨rfl, hh.1⟩, h.sent⟩, ?_, List.forall_mem_cons.2 ⟨?_, h.cut_off⟩⟩
  · cases calls with
    | nil => exact nofun
    | cons c calls => exact List.forall_mem_cons.2 ⟨hl, h.in_time⟩
  · refine iff_of_false (fun ⟨hx', hn⟩ => hn (hx hx')) ?_
    rintro (hl' | ⟨text, hr⟩)
    · exact hl hl'
    · cases ha.symm.trans hr

/-- A stage that fails with the error of another phase was not signed for. -/
theorem unsigned_of_phase {α β : Type} {g : Stage s α β} {tx : String} {e : CallError}
    (h : g.Failed tx t e u) (hp : ∀ σ, e.phase? ≠ some (g.request σ).phase) :
    s.signer t.signatures (sha256 g.message) = .error e := by
  cases h with
  | unsigned hσ => exact hσ
  | letDown _ hf => exact absurd hf.phase (hp _)

/-- **The calls of a write have each their own time.** -/
theorem Course.inOwnTime {x : Except Stop Committed} (h : s.Course w t x u) :
    ∃ calls, u.calls = t.calls ++ calls ∧ s.InOwnTime calls x (s.Unsigned w t.signatures) := by
  have herror : ∀ {α β : Type} {y : Stop} (e : Stop),
      (Except.error y : Except Stop α) = .error e ↔ (Except.error y : Except Stop β) = .error e := fun e => by
    rw [Except.error.injEq, Except.error.injEq]
  cases h with
  | closed => exact ⟨[], (List.append_nil _).symm, .none⟩
  | unendorsed h₁ =>
    exact InOwnTime.of_ends h₁ prepared_ne_timeout (fun _ _ hσ hf => Reached.endorse.not_unsigned hσ hf) herror
  | unsubmitted h₁ h₂ =>
    obtain ⟨q₁, hq₁, rfl⟩ := h₁.of_ok
    obtain ⟨_, rfl⟩ := endorsing_signed hq₁.signed
    obtain ⟨calls, hc, hi⟩ := InOwnTime.of_ends h₂ nofun
      (fun _ _ hσ hf => (Reached.submit hq₁).not_unsigned hσ hf) herror
    refine ⟨_, by rw [hc, List.append_assoc]; rfl, hi.cons hq₁ fun hx => ?_⟩
    cases hx
    exact ⟨_, _, _, .submit hq₁, unsigned_of_phase (submitting_failed h₂) nofun⟩
  | submitted h₁ h₂ h₃ =>
    obtain ⟨q₁, hq₁, rfl⟩ := h₁.of_ok
    obtain ⟨_, rfl⟩ := endorsing_signed hq₁.signed
    obtain ⟨q₂, hq₂, rfl⟩ := h₂.of_ok
    obtain ⟨_, rfl⟩ := submitting_signed hq₂.signed
    obtain ⟨calls, hc, hi⟩ := InOwnTime.of_ends h₃ (committed_ne_timeout _)
      (fun _ _ hσ hf => (Reached.commitStatus hq₁ hq₂).not_unsigned hσ hf) fun _ => .rfl
    -- an error of the last stage that names another phase can only be the signer's
    have hown : ∀ e, (∀ σ, e.phase? ≠ some ((s.watching w).request σ).phase) → x = .error (.failed e) →
        s.Unsigned w t.signatures e := by
      rintro e hp rfl
      exact ⟨_, _, _, .commitStatus hq₁ hq₂, unsigned_of_phase (watching_failed h₃) hp⟩
    have hi₂ : s.InOwnTime (s.sent _ :: calls) x (s.Unsigned w t.signatures) := hi.cons hq₂ (hown _ nofun)
    exact ⟨_, by rw [hc, List.append_assoc, List.append_assoc]; rfl, hi₂.cons hq₁ (hown _ nofun)⟩

/-! ## Peers at the same pace -/

section SamePace

variable {p : Peer}

/-- A call comes to the same with answers that come at the same pace. -/
theorem call_samePace {α : Type} (hp : s.SamePace p) {q : Request}
    {r r' : Reply α} (hr : r.forget = s.peer.reply q) (hr' : r'.forget = p.reply q)
    (ha : ¬ s.Late q → r'.answer = r.answer) : s.call q r' = s.call q r := by
  have hreached : r'.reached = r.reached := by
    rw [← r'.reached_forget, ← r.reached_forget, hr, hr']
    exact hp.reached q
  have hlate : s.timeouts.phase q.phase * 1000 < r'.delayMs ↔ s.timeouts.phase q.phase * 1000 < r.delayMs := by
    have hl := hp.late q
    rwa [Late, ← hr, ← hr'] at hl
  have hsettle : settle q.phase (s.timeouts.phase q.phase) r' = settle q.phase (s.timeouts.phase q.phase) r := by
    unfold settle
    by_cases hl : s.timeouts.phase q.phase * 1000 < r.delayMs
    · rw [if_pos hl, if_pos (hlate.2 hl)]
    · rw [if_neg hl, if_neg fun h => hl (hlate.1 h), ha fun h => hl (by rwa [Late, ← hr] at h)]
  unfold call
  dsimp only
  rw [hreached, hsettle]

variable (hp : s.SamePace p)
include hp

/-- **A write does not depend on the pace of its peer**, as far as it is late with the same requests. -/
theorem submit_samePace (fresh : Fresh) (channel chaincode function : String) (payload : List UInt8) :
    (s.withPeer p).submitTransaction fresh channel chaincode function payload =
      s.submitTransaction fresh channel chaincode function payload := by
  have he : ∀ tx signed, (s.withPeer p).endorse tx channel signed = s.endorse tx channel signed :=
    fun tx signed => congrArg (· >>= _) (call_samePace hp rfl rfl (hp.endorse _))
  have hs : ∀ tx e, (s.withPeer p).submitEnvelope tx channel e = s.submitEnvelope tx channel e :=
    fun tx e => bind_congr fun σ => congrArg (· >>= _) (call_samePace hp rfl rfl (hp.submit _))
  have hc : ∀ tx, (s.withPeer p).commitStatus tx channel = s.commitStatus tx channel :=
    fun tx => bind_congr fun σ =>
      congrArg (Run.observe · (reportUnknown tx)) (call_samePace hp rfl rfl (hp.commitStatus _))
  unfold submitTransaction
  simp only [he, hs, hc]
  rfl

theorem evaluate_samePace (fresh : Fresh) (channel chaincode function : String) (payload : List UInt8) :
    (s.withPeer p).evaluateTransaction fresh channel chaincode function payload =
      s.evaluateTransaction fresh channel chaincode function payload := by
  unfold evaluateTransaction
  refine bind_congr fun signed => bind_congr fun _ => ?_
  exact congrArg (· >>= _) (call_samePace hp rfl rfl (hp.evaluate _))

end SamePace

/-! ## Longer deadlines -/

/-- A write succeeds exactly with three requests that pass its stages one after the other. -/
theorem after_submit_eq_ok_iff (ho : s.isOpen = true) {c : Committed} :
    Run.after t (s.submitTransaction w.fresh w.channel w.chaincode w.function w.payload) = (.ok c, u) ↔
      ∃ q₁ v q₂ q₃, (s.endorsing w).Passed t.signatures q₁ v ∧
        (s.submitting w v).Passed (t.signatures + 1) q₂ () ∧ (s.watching w).Passed (t.signatures + 2) q₃ c ∧
        u = { t with
          signatures := t.signatures + 3
          calls := t.calls ++ [s.sent q₁, s.sent q₂, s.sent q₃] } := by
  rw [submit_eq_stages w ho]
  constructor
  · intro h
    obtain ⟨_, _, hx⟩ | ⟨v, _, h₁, h⟩ := Run.of_after_bind h
    · cases hx
    obtain ⟨_, _, hx⟩ | ⟨_, _, h₂, h₃⟩ := Run.of_after_bind h
    · cases hx
    obtain ⟨q₁, hq₁, rfl⟩ := Stage.after_run_eq_ok_iff.1 h₁
    obtain ⟨q₂, hq₂, rfl⟩ := Stage.after_run_eq_ok_iff.1 h₂
    obtain ⟨q₃, hq₃, rfl⟩ := Stage.after_run_eq_ok_iff.1 h₃
    exact ⟨q₁, v, q₂, q₃, hq₁, hq₂, hq₃, by simp only [List.append_assoc]; rfl⟩
  · rintro ⟨q₁, v, q₂, q₃, hq₁, hq₂, hq₃, rfl⟩
    rw [Run.after_bind_ok (Stage.after_run_eq_ok_iff.2 ⟨q₁, hq₁, rfl⟩),
      Run.after_bind_ok (Stage.after_run_eq_ok_iff.2 ⟨q₂, hq₂, rfl⟩)]
    exact Stage.after_run_eq_ok_iff.2 ⟨q₃, hq₃, by simp only [List.append_assoc]; rfl⟩

/-- A session that is found to be closed brings nothing. -/
theorem after_closed_ne_ok {β : Type} {message : List UInt8} {e : CallError} {b : β} :
    Run.after t (s.sign message >>= fun _ => (Run.fail e : Run β)) ≠ (.ok b, u) := by
  intro h
  obtain ⟨_, _, hx⟩ | ⟨_, _, _, h⟩ := Run.of_after_bind h
  · cases hx
  · cases h

/-- Deadlines that are at least as long.  They have to be written down only where calls go through a network; where calls
are handed over as they are, nothing more is asked of them. -/
structure Lengthened (s : Session) (T : Config.Timeouts) : Prop where
  longer : ∀ p, s.timeouts.phase p ≤ T.phase p
  written : s.link = .network → ∀ p, T.phase p < networkLimit

section Lengthened

variable {T : Config.Timeouts} (hT : s.Lengthened T)
include hT

/-- What is answered in time is so with longer deadlines. -/
theorem Lengthened.passed {α β : Type} {g : Stage s α β} {g' : Stage (s.withTimeouts T) α β} {b : β}
    (hm : g'.message = g.message) (hq : g'.request = g.request) (hr : g'.reply = g.reply) (hl : g'.look = g.look)
    (h : g.Passed n q b) : g'.Passed n q b := by
  obtain ⟨σ, a, hσ, rfl, hs, ⟨ha, hd⟩, hb⟩ := h
  refine ⟨σ, a, by rw [hm]; exact hσ, by rw [hq], fun hn => ?_, ?_, by rw [hl]; exact hb⟩
  · exact hT.written hn _
  · rw [hr]
    exact ⟨ha, Nat.le_trans hd (Nat.mul_le_mul_right _ (hT.longer _))⟩

/-- **A write that succeeds does the same with longer deadlines.** -/
theorem Lengthened.submit {c : Committed}
    (h : Run.after t (s.submitTransaction w.fresh w.channel w.chaincode w.function w.payload) = (.ok c, u)) :
    ∃ u', Run.after t ((s.withTimeouts T).submitTransaction w.fresh w.channel w.chaincode w.function w.payload) =
      (.ok c, u') ∧ u'.calls.map (·.request) = u.calls.map (·.request) := by
  cases ho : s.isOpen with
  | false =>
    rw [submit_eq_closed w ho] at h
    exact absurd h after_closed_ne_ok
  | true =>
    obtain ⟨q₁, v, q₂, q₃, hq₁, hq₂, hq₃, rfl⟩ := (after_submit_eq_ok_iff ho).1 h
    refine ⟨_, (after_submit_eq_ok_iff (s := s.withTimeouts T) ho).2 ⟨q₁, v, q₂, q₃,
      hT.passed rfl rfl rfl rfl hq₁, hT.passed rfl rfl rfl rfl hq₂, hT.passed rfl rfl rfl rfl hq₃, rfl⟩, ?_⟩
    simp only [List.map_append, List.map_cons, List.map_nil, sent_request]

theorem Lengthened.evaluate {a : List UInt8}
    (h : Run.after t (s.evaluateTransaction w.fresh w.channel w.chaincode w.function w.payload) = (.ok a, u)) :
    ∃ u', Run.after t ((s.withTimeouts T).evaluateTransaction w.fresh w.channel w.chaincode w.function w.payload) =
      (.ok a, u') ∧ u'.calls.map (·.request) = u.calls.map (·.request) := by
  cases ho : s.isOpen with
  | false =>
    rw [evaluate_eq_closed w ho] at h
    exact absurd h after_closed_ne_ok
  | true =>
    rw [evaluate_eq_stage w ho] at h
    obtain ⟨q, hq, rfl⟩ := Stage.after_run_eq_ok_iff.1 h
    rw [evaluate_eq_stage w (s := s.withTimeouts T) ho]
    refine ⟨_, Stage.after_run_eq_ok_iff.2 ⟨q, hT.passed rfl rfl rfl rfl hq, rfl⟩, ?_⟩
    simp only [List.map_append, List.map_cons, List.map_nil, sent_request]

end Lengthened

def brinkPeer (endorse submit commitStatus : Nat) (found : Answer EvaluateResponse) : Peer where
  endorse _ := { answer := .ok { preparedTransaction := some {} }, delayMs := endorse }
  submit _ := { answer := .ok {}, delayMs := submit }
  commitStatus _ := { answer := .ok { blockNumber := 7 }, delayMs := commitStatus }
  evaluate _ := { answer := found, delayMs := 5001 }

def brink : Session := { stalled with peer := brinkPeer 15000 5000 60000 (.ok {}) }

theorem late_brink (q : EvaluateRequest) : brink.Late (.evaluate q) := show 5 * 1000 < 5001 by decide

theorem brink_samePace : brink.SamePace (brinkPeer 0 0 0 (.refused .internal "")) where
  late q := by
    cases q with
    | evaluate => exact .rfl
    | endorse => exact iff_of_false (Nat.not_lt_zero _) (show ¬ 15 * 1000 < 15000 by decide)
    | submit => exact iff_of_false (Nat.not_lt_zero _) (show ¬ 5 * 1000 < 5000 by decide)
    | commitStatus => exact iff_of_false (Nat.not_lt_zero _) (show ¬ 60 * 1000 < 60000 by decide)
  reached q := by cases q <;> rfl
  endorse _ _ := rfl
  submit _ _ := rfl
  commitStatus _ _ := rfl
  evaluate q h := absurd (late_brink q) h

theorem brink_lengthened : brink.Lengthened ⟨6, 15, 300, 60, 10⟩ where
  longer p := by cases p <;> decide
  written := nofun

end Session
end LedgerClient.Gateway

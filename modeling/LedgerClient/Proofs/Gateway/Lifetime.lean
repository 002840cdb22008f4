import LedgerClient.Proofs.Gateway.Failure
import LedgerClient.Proofs.Gateway.Evaluation
import LedgerClient.Proofs.TwoRuns
/-!
# The lifetime of a session

A session is open until it is closed, and nothing else that is done with it changes it (`Session.afterAll_open`,
`Session.afterAll_closed`).  While it is open each use goes as it would with a new session (`Session.use_resumes`);
once it is closed each use signs its proposal, sends nothing and says so.  Names that are blank are turned down before
any of this (`Session.lifetime`).
-/
namespace LedgerClient

/-- What is left behind by one run after the other. -/
def Trace.and (t u : Trace) : Trace :=
  ⟨t.signatures + u.signatures, t.calls ++ u.calls, t.events ++ u.events, t.metrics ++ u.metrics⟩

theorem Trace.and_empty (t : Trace) : t.and {} = t := by
  simp [Trace.and]

/-- One run goes on from `t₀`, the other begins anew. -/
def resuming (t₀ : Trace) : Comparison where
  traces t u := t = t₀.and u
  stops := Eq
  excuse _ := False

variable {α : Type} {t₀ : Trace}

theorem resumes_ofExcept (r : Except CallError α) : (resuming t₀).Relates Eq (Run.ofExcept r) (Run.ofExcept r) := by
  cases r with
  | ok a => exact Comparison.relates_pure rfl
  | error e => exact Comparison.relates_fail rfl

/-- **A run that resumes** ends as the one that begins anew, and leaves behind the same after what there was. -/
theorem after_of_resumes {r r' : Run α} (h : (resuming t₀).Relates Eq r r') :
    Run.after t₀ r = ((Run.after {} r').1, t₀.and (Run.after {} r').2) := by
  have hends := h t₀ {} t₀.and_empty.symm
  generalize Run.after t₀ r = ran, Run.after {} r' = ran' at hends
  cases hends with
  | ok h ht => rw [h, ht]
  | stopped h ht => rw [h, ht]
  | left h => exact h.elim
  | right h => exact h.elim

namespace Gateway

open Message

/-- What the use of a contract brings. -/
inductive Brought where
  | committed (c : Committed)
  | payload (bytes : List UInt8)
deriving DecidableEq

namespace Session

variable (s : Session) (w : Write)

/-- Uses a contract of a network. -/
def use (op : Operation) : Run Brought :=
  match op with
  | .write => s.submit w.fresh w.channel w.chaincode w.function w.payload >>= fun c => pure (.committed c)
  | .read => s.evaluate w.fresh w.channel w.chaincode w.function w.payload >>= fun b => pure (.payload b)

/-! ## Blank names -/

theorem after_use_unbound {op : Operation} {e : CallError} (h : bind w.channel w.chaincode = .error e) (t : Trace) :
    Run.after t (s.use w op) = (.error (.failed e), t) := by
  cases op <;>
  · simp only [use, submit, evaluate, h, Run.ofExcept_error_bind]
    rw [Run.after_bind_error (Run.after_fail t e)]

/-! ## Closed sessions -/

variable {s w}

theorem after_use_closed (ho : s.isOpen = false) (hb : bind w.channel w.chaincode = .ok ()) (op : Operation)
    (t : Trace) : Run.after t (s.use w op) =
      (((s.signer t.signatures (sha256 (s.proposal w).bytes)).bind fun _ =>
        .error (.connection .sessionClosed)).mapError .failed, { t with signatures := t.signatures + 1 }) := by
  cases op <;>
  · simp only [use, submit, evaluate, hb, Run.ofExcept_ok, pure_bind]
    first | rw [submit_eq_closed w ho] | rw [evaluate_eq_closed w ho]
    rw [bind_assoc]
    cases hσ : s.signer t.signatures (sha256 (s.proposal w).bytes) with
    | error e =>
      rw [Run.after_bind_error (after_sign_error hσ)]
      rfl
    | ok σ =>
      rw [Run.after_bind_ok (after_sign_ok hσ)]
      rfl

/-! ## Open sessions -/

/-- The session as it was opened, with its signer as far on as it is. -/
def resumed (s : Session) (n : Nat) : Session := { s with signer := fun m => s.signer (n + m) }

section Resuming

variable (s : Session)

theorem sign_resumes (message : List UInt8) :
    (resuming t₀).Relates Eq (s.sign message) ((s.resumed t₀.signatures).sign message) := by
  rintro _ u rfl
  rw [s.after_sign, (s.resumed t₀.signatures).after_sign]
  have hsigner : (s.resumed t₀.signatures).signer u.signatures = s.signer (t₀.and u).signatures := rfl
  have ht : (resuming t₀).traces { t₀.and u with signatures := (t₀.and u).signatures + 1 }
      { u with signatures := u.signatures + 1 } := by
    simp only [resuming, Trace.and, Nat.add_assoc]
  rw [hsigner]
  cases s.signer (t₀.and u).signatures (sha256 message) with
  | error e => exact .stopped rfl ht
  | ok σ => exact .ok rfl ht

theorem call_resumes {q : Request} {r : Reply α} (hr : r.forget = s.peer.reply q) :
    (resuming t₀).Relates Eq (s.call q r) ((s.resumed t₀.signatures).call q r) := by
  rintro _ u rfl
  rw [s.after_call _ hr, (s.resumed t₀.signatures).after_call _ hr]
  have hout : (s.resumed t₀.signatures).outcome q r = s.outcome q r := rfl
  have hseen : (s.resumed t₀.signatures).seen q = s.seen q := rfl
  rw [hout, hseen]
  have ht : (resuming t₀).traces { t₀.and u with calls := (t₀.and u).calls ++ s.seen q }
      { u with calls := u.calls ++ s.seen q } := by
    simp only [resuming, Trace.and, List.append_assoc]
  cases s.outcome q r with
  | error x => exact .stopped rfl ht
  | ok a => exact .ok rfl ht

theorem requireOpen_resumes :
    (resuming t₀).Relates Eq s.requireOpen (s.resumed t₀.signatures).requireOpen := by
  have hopen : (s.resumed t₀.signatures).requireOpen = s.requireOpen := rfl
  rw [hopen, requireOpen]
  split
  · exact Comparison.relates_pure rfl
  · exact Comparison.relates_fail rfl

theorem reportUnknown_inStep (tx : String) (x : Except Stop CommitStatusResponse) :
    (resuming t₀).InStep (reportUnknown tx x) (reportUnknown tx x) := by
  rintro _ u rfl
  rw [after_reportUnknown, after_reportUnknown]
  simp only [resuming, Trace.and, List.append_assoc]

theorem submitTransaction_resumes (fresh : Fresh) (channel chaincode function : String) (payload : List UInt8) :
    (resuming t₀).Relates Eq (s.submitTransaction fresh channel chaincode function payload)
      ((s.resumed t₀.signatures).submitTransaction fresh channel chaincode function payload) := by
  -- not stage by stage, since a closed session resumes as well
  unfold submitTransaction signedProposal endorse submitEnvelope commitStatus
  simp only [bind_assoc, pure_bind]
  refine (s.sign_resumes _).bind_eq fun σ => s.requireOpen_resumes.bind_eq fun _ => ?_
  refine (s.call_resumes rfl).bind_eq fun r => ?_
  refine Comparison.Relates.bind_eq ?_ fun e => ?_
  · cases r.preparedTransaction
    · exact Comparison.relates_fail rfl
    · exact Comparison.relates_pure rfl
  refine (s.sign_resumes _).bind_eq fun σ => (s.call_resumes rfl).bind_eq fun _ => ?_
  refine (s.sign_resumes _).bind_eq fun σ => Comparison.Relates.bind_eq ?_ fun r => ?_
  · refine (s.call_resumes rfl).observe (fun a a' h => ?_) fun x x' h => ?_
    · rw [h]
      exact reportUnknown_inStep _ _
    · rw [show x = x' from h]
      exact reportUnknown_inStep _ _
  · split
    · exact Comparison.relates_pure rfl
    · exact Comparison.relates_fail rfl

theorem evaluateTransaction_resumes (fresh : Fresh) (channel chaincode function : String) (payload : List UInt8) :
    (resuming t₀).Relates Eq (s.evaluateTransaction fresh channel chaincode function payload)
      ((s.resumed t₀.signatures).evaluateTransaction fresh channel chaincode function payload) := by
  unfold evaluateTransaction signedProposal
  simp only [bind_assoc, pure_bind]
  refine (s.sign_resumes _).bind_eq fun σ => s.requireOpen_resumes.bind_eq fun _ => ?_
  refine (s.call_resumes rfl).bind_eq fun r => ?_
  cases r.result with
  | none => exact Comparison.relates_fail rfl
  | some a =>
    dsimp only
    split
    · exact Comparison.relates_fail rfl
    · exact Comparison.relates_pure rfl

/-- **Each use goes as it would with a new session**, of which the signer is as far on as it is. -/
theorem use_resumes (w : Write) (op : Operation) :
    (resuming t₀).Relates Eq (s.use w op) ((s.resumed t₀.signatures).use w op) := by
  cases op with
  | write =>
    refine Comparison.Relates.bind_eq ?_ fun c => Comparison.relates_pure rfl
    exact (resumes_ofExcept _).bind_eq fun _ => s.submitTransaction_resumes _ _ _ _ _
  | read =>
    refine Comparison.Relates.bind_eq ?_ fun b => Comparison.relates_pure rfl
    exact (resumes_ofExcept _).bind_eq fun _ => s.evaluateTransaction_resumes _ _ _ _ _

end Resuming

end Session

/-! ## One thing after the other -/

/-- What can be done with a session: use a contract of a network, whatever the peer does then, or close it. -/
inductive Act where
  | use (op : Operation) (peer : Peer) (w : Write)
  | close

def Act.after (now : Session × Trace) : Act → Session × Trace
  | .use op peer w => (now.1, (Run.after now.2 ({ now.1 with peer }.use w op)).2)
  | .close => (now.1.close, now.2)

namespace Session

variable (s : Session) (t : Trace)

/-- The session and what was left behind, after some acts. -/
def afterAll (acts : List Act) : Session × Trace := acts.foldl Act.after (s, t)

/-- **A session that is not closed stays as it is.** -/
theorem afterAll_open {acts : List Act} (h : Act.close ∉ acts) : (s.afterAll t acts).1 = s := by
  induction acts generalizing t with
  | nil => rfl
  | cons a acts ih =>
    cases a with
    | use op peer w => exact ih _ (List.not_mem_of_not_mem_cons h)
    | close => exact absurd List.mem_cons_self h

theorem afterAll_of_closed (ho : s.isOpen = false) (acts : List Act) : (s.afterAll t acts).1 = s := by
  induction acts generalizing s t with
  | nil => rfl
  | cons a acts ih =>
    cases a with
    | use op peer w => exact ih s _ ho
    | close =>
      have hclose : s.close = s := by rw [close, ← ho]
      refine (ih s.close t rfl).trans hclose

/-- **After its first close a session is closed**, and otherwise as it was. -/
theorem afterAll_closed {acts : List Act} (h : Act.close ∈ acts) : (s.afterAll t acts).1 = s.close := by
  induction acts generalizing t with
  | nil => cases h
  | cons a acts ih =>
    -- up to the close that comes first nothing changes, and from there on nothing does either
    cases a with
    | use op peer w => exact ih _ ((List.mem_cons.1 h).resolve_left nofun)
    | close => exact afterAll_of_closed s.close t rfl acts

/-- **The lifetime of a session.**  After any acts, in any order, it is open exactly if it was not closed among them,
and it has the identity and the deadlines it was opened with.  A use of blank names is turned down as such, the network
first, and leaves nothing behind, not even a signature.  Any other use of a closed session signs its proposal, sends
nothing, and fails with the signer's error or because the session is closed; and one of an open session brings what it
would with a new one, and leaves the same behind. -/
theorem lifetime (s : Session) (ho : s.isOpen = true) (t : Trace) (acts : List Act) (op : Operation) (peer : Peer)
    (w : Write) :
    let now := s.afterAll t acts
    let ran := Run.after now.2 ({ now.1 with peer }.use w op)
    let signed := s.signer now.2.signatures (sha256 (s.proposal w).bytes)
    (now.1.isOpen = true ↔ Act.close ∉ acts) ∧
    (now.1.identity = s.identity ∧ now.1.creator = s.creator ∧ now.1.timeouts = s.timeouts) ∧
    (IsBlank w.channel → ran = (.error (.failed (.invalidInput .blankNetwork)), now.2)) ∧
    (¬ IsBlank w.channel → IsBlank w.chaincode → ran = (.error (.failed (.invalidInput .blankContract)), now.2)) ∧
    (¬ IsBlank w.channel → ¬ IsBlank w.chaincode → Act.close ∈ acts →
      ran.2 = { now.2 with signatures := now.2.signatures + 1 } ∧
      (∀ e, signed = .error e → ran.1 = .error (.failed e)) ∧
      (∀ σ, signed = .ok σ → ran.1 = .error (.failed (.connection .sessionClosed)))) ∧
    (∀ words, ConnectionCause.sessionClosed.message words = "Gateway session already closed") ∧
    (Act.close ∉ acts →
      let new := Run.after {} ({ s.resumed now.2.signatures with peer }.use w op)
      ran.1 = new.1 ∧ ran.2 = now.2.and new.2) := by
  intro now ran signed
  -- whatever was done before, only whether the session was closed is left of it
  have hkept : now.1 = s ∧ Act.close ∉ acts ∨ now.1 = s.close ∧ Act.close ∈ acts := by
    by_cases hc : Act.close ∈ acts
    · exact .inr ⟨s.afterAll_closed t hc, hc⟩
    · exact .inl ⟨s.afterAll_open t hc, hc⟩
  refine ⟨?_, ?_, fun hn => ?_, fun hn hc => ?_, fun hn hc hclosed => ?_, fun _ => rfl, fun hopen => ?_⟩
  · obtain ⟨h, hc⟩ | ⟨h, hc⟩ := hkept <;> rw [h]
    · exact iff_of_true ho hc
    · exact iff_of_false nofun (not_not_intro hc)
  · obtain ⟨h, -⟩ | ⟨h, -⟩ := hkept <;> rw [h] <;> exact ⟨rfl, rfl, rfl⟩
  · have hb : bind w.channel w.chaincode = .error (.invalidInput .blankNetwork) := by
      rw [bind, checkNetwork, if_pos hn]
    exact after_use_unbound _ w hb now.2
  · have hb : bind w.channel w.chaincode = .error (.invalidInput .blankContract) := by
      rw [bind, checkNetwork, if_neg hn, checkContract, if_pos hc]
    exact after_use_unbound _ w hb now.2
  · have hb : bind w.channel w.chaincode = .ok () := by
      rw [bind, checkNetwork, if_neg hn, checkContract, if_neg hc]
    have hnow : now.1 = s.close := s.afterAll_closed t hclosed
    have hran : ran = ((signed.bind fun _ => .error (.connection .sessionClosed)).mapError .failed,
        { now.2 with signatures := now.2.signatures + 1 }) := by
      simp only [ran, hnow]
      exact after_use_closed rfl hb op now.2
    rw [hran]
    exact ⟨rfl, fun e he => by rw [he]; rfl, fun σ hσ => by rw [hσ]; rfl⟩
  · intro new
    have hnow : now.1 = s := s.afterAll_open t hopen
    have hran : ran = (new.1, now.2.and new.2) := by
      simp only [ran, hnow]
      exact after_of_resumes (use_resumes { s with peer } w op)
    rw [hran]
    exact ⟨rfl, rfl⟩

/-! A session that is used, closed, and used again. -/

def onceUsed : List Act := [.use .write stalled.peer ⟨⟨[], {}⟩, "c", "b", "f", []⟩, .close]

theorem lifetime_closed : stalled.isOpen = true ∧
    let now := stalled.afterAll {} onceUsed
    let w : Write := ⟨⟨[], {}⟩, "c", "b", "f", []⟩
    now.1.isOpen = false ∧ (Run.after now.2 ({ now.1 with peer := stalled.peer }.use w .read)).1 =
      .error (.failed (.connection .sessionClosed)) := by
  obtain ⟨hopen, -, -, -, hclosed, -⟩ :=
    stalled.lifetime rfl {} onceUsed .read stalled.peer ⟨⟨[], {}⟩, "c", "b", "f", []⟩
  have hc : Act.close ∈ onceUsed := .tail _ (.head _)
  exact ⟨rfl, Bool.eq_false_iff.2 fun h => hopen.1 h hc, (hclosed (by decide) (by decide) hc).2.2 _ rfl⟩

end Session
end Gateway
end LedgerClient

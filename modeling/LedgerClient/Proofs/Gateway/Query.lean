import LedgerClient.Proofs.Gateway.Cutoff
import LedgerClient.Proofs.Gateway.Proposal
/-!
# What comes of a query

A query that is signed makes one request, and what it comes to is a matter of the reply alone: it brings the payload of
the result, or the error that `Session.QueryFails` has for the reply.  One that is not signed makes no request and ends
with the signer's error (`Session.evaluate_query`).
-/
namespace LedgerClient.Gateway

open Message

namespace Session

variable {s : Session} {w : Write} {q : EvaluateRequest} {e : CallError}

/-- The result with which a request is answered in time. -/
def Finds (s : Session) (q : EvaluateRequest) (a : Response) : Prop :=
  s.Heard (.evaluate q) ∧ (s.peer.evaluate q).answer = .ok { result := some a }

/-- **The error for a query that brought nothing**, by how its request ended. -/
inductive QueryFails (s : Session) (q : EvaluateRequest) : CallError → Prop where
  | unanswered {e : CallError} (h : ∀ tx, s.Fails tx (.evaluate q) e) : QueryFails s q e
  | noResult (h : s.Heard (.evaluate q)) (ha : (s.peer.evaluate q).answer = .ok { result := none }) :
      QueryFails s q (.remote .evaluate .noResult)
  | refused {a : Response} (h : s.Finds q a) (hs : 400 ≤ a.status) :
      QueryFails s q (.remote .evaluate (.peerStatus a.status.toInt a.message))

theorem Fails.not_answered {tx : String} {r : EvaluateResponse} (h : s.Fails tx (.evaluate q) e)
    (hh : s.Heard (.evaluate q)) : (s.peer.evaluate q).answer ≠ .ok r := by
  intro ha
  have hreply : (s.peer.reply (.evaluate q)).answer = .ok () := by simp only [Peer.reply, Reply.forget, ha]
  obtain ⟨_, _, hq, -⟩ | ⟨_, _, hq, -⟩ := h.of_answered hh hreply <;> cases hq

theorem Finds.unique {a b : Response} (h : s.Finds q a) (h' : s.Finds q b) : a = b := by
  have hab := h.2.symm.trans h'.2
  simpa using hab

theorem QueryFails.not_finds {a : Response} (h : s.QueryFails q e) (ha : s.Finds q a) : 400 ≤ a.status := by
  cases h with
  | unanswered h => exact absurd ha.2 ((h "").not_answered ha.1)
  | noResult _ h => cases h.symm.trans ha.2
  | refused h hs =>
    obtain rfl := h.unique ha
    exact hs

/-- **A query fails with one error.** -/
theorem QueryFails.unique {e' : CallError} (h : s.QueryFails q e) (h' : s.QueryFails q e') : e = e' := by
  cases h with
  | unanswered h =>
    cases h' with
    | unanswered k => exact (h "").unique (k "")
    | noResult hh ha => exact absurd ha ((h "").not_answered hh)
    | refused ha _ => exact absurd ha.2 ((h "").not_answered ha.1)
  | noResult hh ha =>
    cases h' with
    | unanswered k => exact absurd ha ((k "").not_answered hh)
    | noResult => rfl
    | refused ha' _ => cases ha.symm.trans ha'.2
  | refused ha _ =>
    cases h' with
    | unanswered k => exact absurd ha.2 ((k "").not_answered ha.1)
    | noResult _ ha' => cases ha'.symm.trans ha.2
    | refused ha' _ =>
      obtain rfl := ha.unique ha'
      rfl

/-- What a request for a query comes to. -/
def queried (s : Session) (q : EvaluateRequest) : Except Stop (List UInt8) :=
  (s.outcome (.evaluate q) (s.peer.evaluate q)).bind fun r => (answered r).mapError .failed

/-- **A query finds a result or fails**, unless it is cut off. -/
theorem queried_cases (hl : ¬ s.Overlong .evaluate) :
    (∃ a, s.Finds q a ∧ a.status < 400 ∧ s.queried q = .ok a.payload) ∨
      ∃ e, s.QueryFails q e ∧ s.queried q = .error (.failed e) := by
  unfold queried
  cases ho : s.outcome (.evaluate q) (s.peer.evaluate q) with
  | error x =>
    cases x with
    | panicked => exact absurd (outcome_eq_panicked_iff.1 ho) hl
    | failed e => exact .inr ⟨e, .unanswered fun tx => fails_of_outcome rfl ho, rfl⟩
  | ok r =>
    obtain ⟨hs, -, hb⟩ := outcome_ok rfl ho
    have hh : s.Heard (.evaluate q) := ⟨hs, hb.2⟩
    obtain ⟨_ | a⟩ := r
    · exact .inr ⟨_, .noResult hh hb.1, rfl⟩
    · have hfinds : s.Finds q a := ⟨hh, hb.1⟩
      by_cases hstatus : peerErrorThreshold ≤ a.status
      · refine .inr ⟨_, .refused hfinds hstatus, ?_⟩
        simp only [Except.bind, answered]
        rw [if_pos hstatus]
        rfl
      · refine .inl ⟨a, hfinds, Int32.not_le.1 hstatus, ?_⟩
        simp only [Except.bind, answered]
        rw [if_neg hstatus]
        rfl

theorem queried_eq_ok_iff (hl : ¬ s.Overlong .evaluate) {b : List UInt8} :
    s.queried q = .ok b ↔ ∃ a, s.Finds q a ∧ a.status < 400 ∧ b = a.payload := by
  obtain ⟨a, ha, hstatus, h⟩ | ⟨e, he, h⟩ := queried_cases (q := q) hl <;> rw [h]
  · refine ⟨fun hb => ⟨a, ha, hstatus, ?_⟩, fun ⟨a', ha', _, hb⟩ => ?_⟩
    · cases hb
      rfl
    · rw [hb, ha.unique ha']
  · exact ⟨nofun, fun ⟨a, ha, hstatus, _⟩ => absurd (he.not_finds ha) (Int32.not_le.2 hstatus)⟩

theorem queried_eq_error_iff (hl : ¬ s.Overlong .evaluate) :
    s.queried q = .error (.failed e) ↔ s.QueryFails q e := by
  obtain ⟨a, ha, hstatus, h⟩ | ⟨e', he, h⟩ := queried_cases (q := q) hl <;> rw [h]
  · exact ⟨nofun, fun he => absurd (he.not_finds ha) (Int32.not_le.2 hstatus)⟩
  · refine ⟨fun h => ?_, fun he' => by rw [he.unique he']⟩
    cases h
    exact he

section Running

variable {p : PreparedProposal} {t : Trace}

theorem after_evaluate_unsigned (ho : s.isOpen = true) (hp : s.proposal w = p)
    (h : s.signer t.signatures (sha256 p.bytes) = .error e) :
    Run.after t (s.evaluateTransaction w.fresh w.channel w.chaincode w.function w.payload) =
      (.error (.failed e), { t with signatures := t.signatures + 1 }) := by
  subst hp
  rw [← evaluating_message] at h
  rw [evaluate_eq_stage w ho, Stage.after_run_unsigned h]

theorem after_evaluate_signed (ho : s.isOpen = true) (hp : s.proposal w = p) {σ : List UInt8}
    (h : s.signer t.signatures (sha256 p.bytes) = .ok σ) :
    let q := w.evaluation p.transactionId ⟨p.bytes, σ⟩
    Run.after t (s.evaluateTransaction w.fresh w.channel w.chaincode w.function w.payload) =
      (s.queried q, { t with signatures := t.signatures + 1, calls := t.calls ++ s.seen (.evaluate q) }) := by
  subst hp
  rw [← evaluating_message] at h
  rw [evaluate_eq_stage w ho, Stage.after_run h]
  simp only [evaluating, List.append_nil]
  rfl

end Running

/-- **What a query asks and what it brings.**  Its proposal is for the channel, the chaincode, the function and the
payload, and for nothing else.  Without a signature nothing is asked and the error is the signer's.  With one the only
request is to evaluate it; the query brings the payload of a result that comes in time with a status below 400, and
fails otherwise as its phase has it, as long as its deadline can be written down for a network, if there is one. -/
theorem evaluate_query (s : Session) (fresh : Fresh) (channel chaincode function : String) (payload : List UInt8)
    (t : Trace) (ho : s.isOpen = true) :
    let p := buildProposal fresh s.creator channel chaincode function [payload]
    let ran := Run.after t (s.evaluateTransaction fresh channel chaincode function payload)
    (p.bytes.length < UInt64.size → ∃ l, Layers.read? p.bytes = some l ∧
      l.Say (transactionId fresh.nonce s.creator) fresh s.creator channel chaincode function [payload]) ∧
    (∀ n text, (RemoteCause.peerStatus n text).message = s!"Peer returned status {n}: {text}") ∧
    (∀ e, s.signer t.signatures (sha256 p.bytes) = .error e → ran.1 = .error (.failed e) ∧ ran.2.calls = t.calls) ∧
    ∀ σ, s.signer t.signatures (sha256 p.bytes) = .ok σ →
      let q : EvaluateRequest :=
        { transactionId := p.transactionId
          channelId := channel
          proposedTransaction := some { proposalBytes := p.bytes, signature := σ } }
      (ran.2.calls = t.calls ∨ ran.2.calls = t.calls ++ [s.sent (.evaluate q)]) ∧
      (¬ s.Overlong .evaluate →
        (s.Heard (.evaluate q) ↔ (s.peer.evaluate q).delayMs ≤ s.timeouts.evaluate * 1000) ∧
        (∀ b, ran.1 = .ok b ↔ ∃ a, s.Finds q a ∧ a.status < 400 ∧ b = a.payload) ∧
        (∀ e, ran.1 = .error (.failed e) ↔ s.QueryFails q e) ∧ ran.1 ≠ .error .panicked) := by
  intro p ran
  let w : Write := ⟨fresh, channel, chaincode, function, payload⟩
  have hp : s.proposal w = p := rfl
  refine ⟨fun h => ?_, fun _ _ => rfl, fun e he => ?_, fun σ hσ => ?_⟩
  · obtain ⟨l, hl, hsay⟩ := nested_buildProposal fresh s.creator channel chaincode function [payload] h
    exact ⟨l, hl.read?, hsay⟩
  · have hran : ran = _ := after_evaluate_unsigned (w := w) ho hp he
    rw [hran]
    exact ⟨rfl, rfl⟩
  · intro q
    have hran : ran = (s.queried q, { t with
      signatures := t.signatures + 1, calls := t.calls ++ s.seen (.evaluate q) }) :=
        after_evaluate_signed (w := w) ho hp hσ
    -- from here on it does not matter which request it is
    clear_value ran q
    subst hran
    refine ⟨?_, fun hl => ⟨?_, fun b => queried_eq_ok_iff hl, fun e => queried_eq_error_iff hl, fun h => ?_⟩⟩
    · obtain h | h := s.seen_eq (.evaluate q)
      · exact .inl (by simp only [h, List.append_nil])
      · exact .inr (by simp only [h])
    · exact and_iff_right fun hn => Nat.not_le.1 fun hlong => hl ⟨hn, hlong⟩
    · obtain ⟨_, _, _, h'⟩ | ⟨_, _, h'⟩ := queried_cases (q := q) hl <;> cases h'.symm.trans h

/-! A session whose queries are answered, one whose signer refuses, and one with a deadline of too many digits. -/

def answering : Session :=
  { stalled with
    peer := { stalled.peer with evaluate := fun _ => { answer := .ok { result := some ⟨399, "", [1]⟩ } } } }

theorem evaluate_query_answering : answering.isOpen = true ∧
    (Run.after {} (answering.evaluateTransaction ⟨[], {}⟩ "c" "b" "f" [])).1 = .ok [1] := by
  obtain ⟨-, -, -, h⟩ := answering.evaluate_query ⟨[], {}⟩ "c" "b" "f" [] {} rfl
  obtain ⟨-, h⟩ := h _ rfl
  obtain ⟨hheard, hok, -⟩ := h fun hl => absurd hl.1 (by decide)
  exact ⟨rfl, (hok _).2 ⟨⟨399, "", [1]⟩, ⟨hheard.2 (Nat.zero_le _), rfl⟩, by decide, rfl⟩⟩

def refusing : Session := { stalled with signer := fun _ _ => .error (.identity (.other "refused")) }

def overlong : Session := { answering with link := .network, timeouts := { evaluate := networkLimit } }

/-- It is not so that a query fails for its time, the connection or the peer only, and not so that every query ends. -/
theorem evaluate_not_by_reply_alone :
    (¬ ∀ (s : Session) (w : Write) (e : CallError), s.isOpen = true →
      (Run.after {} (s.evaluateTransaction w.fresh w.channel w.chaincode w.function w.payload)).1 = .error (.failed e) →
        e.kind = "timeout" ∨ e.kind = "connection" ∨ e.kind = "remote") ∧
    ¬ ∀ (s : Session) (w : Write), s.isOpen = true →
      (Run.after {} (s.evaluateTransaction w.fresh w.channel w.chaincode w.function w.payload)).1 ≠
        .error .panicked := by
  let w : Write := ⟨⟨[], {}⟩, "c", "b", "f", []⟩
  refine ⟨fun h => ?_, fun h => ?_⟩
  · have hrefused := h refusing w (.identity (.other "refused")) rfl
      (congrArg Prod.fst (after_evaluate_unsigned (w := w) rfl rfl rfl))
    revert hrefused
    decide
  · exact h overlong w rfl ((evaluate_cutOff_iff rfl).2 ⟨_, .read rfl, rfl, Nat.le_refl _⟩)

end Session
end LedgerClient.Gateway

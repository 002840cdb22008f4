import LedgerClient.Gateway.Session
import LedgerClient.Proofs.Gateway.Deadline
import LedgerClient.Proofs.Run
/-!
# How one call ends

What a call comes to (`Session.outcome`) and whether the peer sees it (`Session.seen`) depend on the request and the
peer's reply alone (`after_call`).  `Session.Fails` is the table of the errors: one row for each way in which a
request can bring nothing.
-/
namespace LedgerClient.Gateway

open Message

variable {α : Type}

/-! ## Replies -/

/-- The answer is `a`, and it comes before the wait for it is over. -/
def Reply.Brings (r : Reply α) (secs : Nat) (a : α) : Prop := r.answer = .ok a ∧ r.delayMs ≤ secs * 1000

theorem settle_eq_ok_iff {p : Phase} {secs : Nat} {r : Reply α} {a : α} :
    settle p secs r = .ok a ↔ r.Brings secs a := by
  unfold settle Reply.Brings
  by_cases h : secs * 1000 < r.delayMs
  · simp [h]
  · rw [if_neg h]
    cases hr : r.answer with
    | ok b => simp; omega
    | refused c t => simp
    | unreachable t => simp

/-- A reply without what was answered. -/
def Reply.forget (r : Reply α) : Reply Unit where
  answer := match r.answer with
    | .ok _ => .ok ()
    | .refused c t => .refused c t
    | .unreachable t => .unreachable t
  delayMs := r.delayMs

/-- How the peer replies to a request of any kind. -/
def Peer.reply (p : Peer) : Request → Reply Unit
  | .endorse q => (p.endorse q).forget
  | .submit q => (p.submit q).forget
  | .commitStatus q => (p.commitStatus q).forget
  | .evaluate q => (p.evaluate q).forget

theorem Reply.reached_forget (r : Reply α) : r.forget.reached = r.reached := by
  rcases r with ⟨a | _ | _, d⟩ <;> rfl

theorem Reply.Brings.reached {r : Reply α} {secs : Nat} {a : α} (h : r.Brings secs a) : r.reached = true := by
  unfold Reply.reached
  rw [h.1]

namespace Session

variable (s : Session) (q : Request)

/-! ## Calls -/

/-- The seconds a request is given. -/
def deadline : Nat := s.timeouts.phase q.phase

@[simp] theorem deadline_endorse (q : EndorseRequest) : s.deadline (.endorse q) = s.timeouts.endorse := rfl

@[simp] theorem deadline_submit (q : SubmitRequest) : s.deadline (.submit q) = s.timeouts.submit := rfl

@[simp] theorem deadline_commitStatus (q : SignedCommitStatusRequest) :
    s.deadline (.commitStatus q) = s.timeouts.commitStatus := rfl

/-- What goes with a request as the text of its deadline: nothing, where it is handed over as it is. -/
def timeout? : Option String :=
  match s.link with
  | .direct => none
  | .network => (WireDeadline.ofSeconds? (s.deadline q)).map WireDeadline.render

/-- The call that a request makes. -/
def sent : Call := ⟨q, s.deadline q, s.timeout? q⟩

@[simp] theorem sent_request : (s.sent q).request = q := rfl

@[simp] theorem sent_deadline : (s.sent q).deadline = s.deadline q := rfl

@[simp] theorem sent_inj {s : Session} {q q' : Request} : s.sent q = s.sent q' ↔ q = q' :=
  ⟨congrArg Call.request, congrArg s.sent⟩

/-- Through a network, a deadline has to be one that can be written down. -/
def Sendable : Prop := s.link = .network → s.deadline q < networkLimit

instance : Decidable (s.Sendable q) := inferInstanceAs (Decidable (_ → _))

/-- The calls the peer sees of a request: itself, if it gets there. -/
def seen : List Call :=
  if s.Sendable q ∧ (s.peer.reply q).reached = true then [s.sent q] else []

/-- What a request comes to, by the reply to it. -/
def outcome (r : Reply α) : Except Stop α :=
  if s.Sendable q then (settle q.phase (s.deadline q) r).mapError .failed else .error .panicked

variable {s q}

theorem seen_of_not_sendable (h : ¬ s.Sendable q) : s.seen q = [] := if_neg fun hs => h hs.1

/-- The peer sees a request once or not at all. -/
theorem seen_eq (s : Session) (q : Request) : s.seen q = [] ∨ s.seen q = [s.sent q] := by
  unfold seen
  split
  · exact .inr rfl
  · exact .inl rfl

/-- A deadline that can be written down goes with its request. -/
theorem after_timeout (h : s.Sendable q) (t : Trace) :
    Run.after t (s.link.timeout (s.timeouts.phase q.phase)) = (.ok (s.timeout? q), t) := by
  change Run.after t (s.link.timeout (s.deadline q)) = _
  unfold timeout?
  cases hl : s.link with
  | direct => rfl
  | network =>
    obtain ⟨d, hd⟩ := Option.isSome_iff_exists.1 (WireDeadline.ofSeconds?_isSome_iff.2 (h hl))
    rw [Link.timeout, hd]
    rfl

/-- One that cannot be cuts the request off. -/
theorem after_timeout_overlong (hn : s.link = .network) (h : networkLimit ≤ s.deadline q) (t : Trace) :
    Run.after t (s.link.timeout (s.timeouts.phase q.phase)) = (.error .panicked, t) := by
  change Run.after t (s.link.timeout (s.deadline q)) = _
  have hnone : WireDeadline.ofSeconds? (s.deadline q) = none :=
    Option.not_isSome_iff_eq_none.1 fun hd => Nat.not_le.2 (WireDeadline.ofSeconds?_isSome_iff.1 hd) h
  rw [hn, Link.timeout, hnone]
  rfl

/-- A request that can be sent comes to what the reply does. -/
theorem after_call_sendable (hs : s.Sendable q) (t : Trace) {r : Reply α} (hr : r.forget = s.peer.reply q) :
    Run.after t (s.call q r) = (s.outcome q r, { t with calls := t.calls ++ s.seen q }) := by
  have hreach : (s.peer.reply q).reached = r.reached := by rw [← hr, r.reached_forget]
  unfold call outcome seen
  dsimp only
  rw [Run.after_bind_ok (after_timeout hs t), if_pos hs, hreach]
  cases hre : r.reached with
  | true =>
    simp only [hs, and_self, ↓reduceIte]
    rw [Run.after_bind_ok (Run.after_recordCall _ _), Run.after_ofExcept]
    rfl
  | false =>
    simp only [Bool.false_eq_true, and_false, ↓reduceIte, List.append_nil]
    rw [Run.after_ofExcept]
    rfl

/-- A request that cannot be sent cuts off whoever makes it. -/
theorem after_call_not_sendable (hs : ¬ s.Sendable q) (t : Trace) (r : Reply α) :
    Run.after t (s.call q r) = (s.outcome q r, t) := by
  obtain ⟨hn, h⟩ := Classical.not_imp.1 hs
  unfold call outcome
  dsimp only
  rw [Run.after_bind_error (after_timeout_overlong hn (Nat.not_lt.1 h) t), if_neg hs]

/-- **One call**: its outcome is the reply's, and it leaves behind the request if the peer saw it. -/
theorem after_call (s : Session) (t : Trace) {q : Request} {r : Reply α} (hr : r.forget = s.peer.reply q) :
    Run.after t (s.call q r) = (s.outcome q r, { t with calls := t.calls ++ s.seen q }) := by
  by_cases hs : s.Sendable q
  · exact after_call_sendable hs t hr
  · rw [after_call_not_sendable hs, seen_of_not_sendable hs, List.append_nil]

/-- A call that brings an answer was seen, and the answer came in time. -/
theorem outcome_ok {r : Reply α} {a : α} (hr : r.forget = s.peer.reply q) (h : s.outcome q r = .ok a) :
    s.Sendable q ∧ s.seen q = [s.sent q] ∧ r.Brings (s.deadline q) a := by
  unfold outcome at h
  split at h
  · rename_i hs
    have hb : r.Brings (s.deadline q) a := by
      cases hq : settle q.phase (s.deadline q) r with
      | error e => rw [hq] at h; cases h
      | ok b => rw [hq] at h; cases h; exact settle_eq_ok_iff.1 hq
    have hreach : (s.peer.reply q).reached = true := by rw [← hr, r.reached_forget, hb.reached]
    exact ⟨hs, if_pos ⟨hs, hreach⟩, hb⟩
  · cases h

/-- A call that was seen and answered in time brings the answer. -/
theorem outcome_of_brings {r : Reply α} {a : α} (hs : s.seen q ≠ []) (hb : r.Brings (s.deadline q) a) :
    s.outcome q r = .ok a := by
  have hsend : s.Sendable q := Classical.byContradiction fun h => hs (seen_of_not_sendable h)
  unfold outcome
  rw [if_pos hsend, settle_eq_ok_iff.2 hb]
  rfl

/-! ## Errors -/

/-- Some reply comes before the wait for it is over. -/
def Heard (s : Session) (q : Request) : Prop :=
  s.Sendable q ∧ (s.peer.reply q).delayMs ≤ s.deadline q * 1000

/-- **The error for a request that brought nothing**, by how it ended; `tx` is the transaction it belongs to. -/
inductive Fails (s : Session) (tx : String) : Request → CallError → Prop where
  | late {q : Request} (h : ¬ s.Heard q) : Fails s tx q (.timeout q.phase (s.deadline q))
  | expired {q : Request} {text : String} (h : s.Heard q)
      (ha : (s.peer.reply q).answer = .refused .deadlineExceeded text) :
      Fails s tx q (.timeout q.phase (s.deadline q))
  | lost {q : Request} {code : RpcCode} {text : String} (h : s.Heard q)
      (ha : (s.peer.reply q).answer = .refused code text) (hc : code = .unavailable ∨ code = .cancelled) :
      Fails s tx q (.connection (.failed q.phase text))
  | refused {q : Request} {code : RpcCode} {text : String} (h : s.Heard q)
      (ha : (s.peer.reply q).answer = .refused code text) (hd : code ≠ .deadlineExceeded)
      (hu : code ≠ .unavailable) (hc : code ≠ .cancelled) : Fails s tx q (.remote q.phase (.rpc code text))
  | unreachable {q : Request} {text : String} (h : s.Heard q) (ha : (s.peer.reply q).answer = .unreachable text) :
      Fails s tx q (.connection (.failed q.phase text))
  /-- Endorsed, but with nothing to submit. -/
  | unprepared {q : EndorseRequest} {r : EndorseResponse} (h : s.Heard (.endorse q))
      (ha : (s.peer.endorse q).answer = .ok r) (hr : r.preparedTransaction = none) :
      Fails s tx (.endorse q) (.remote .endorse .noPreparedTransaction)
  /-- Ordered, but found invalid. -/
  | invalidated {q : SignedCommitStatusRequest} {r : CommitStatusResponse} (h : s.Heard (.commitStatus q))
      (ha : (s.peer.commitStatus q).answer = .ok r) (hr : r.result ≠ valid) :
      Fails s tx (.commitStatus q) (.remote .commitStatus (.invalidated tx r.result.toInt))

/-- **The table has one error for each request.** -/
theorem Fails.unique {tx : String} {e e' : CallError} (h : s.Fails tx q e) (h' : s.Fails tx q e') : e = e' := by
  -- no two rows are about the same reply
  cases h <;> cases h' <;> grind [Peer.reply, Reply.forget]

/-- The error of a refusal is the one in the table. -/
theorem fails_statusError {tx text : String} {code : RpcCode} (h : s.Heard q)
    (ha : (s.peer.reply q).answer = .refused code text) :
    s.Fails tx q (statusError q.phase (s.deadline q) code text) := by
  cases code with
  | deadlineExceeded => exact .expired h ha
  | unavailable => exact .lost h ha (.inl rfl)
  | cancelled => exact .lost h ha (.inr rfl)
  | _ => exact .refused h ha (by decide) (by decide) (by decide)

/-- **A call that ends with an error ends with the one in the table.** -/
theorem fails_of_outcome {tx : String} {r : Reply α} {e : CallError} (hr : r.forget = s.peer.reply q)
    (h : s.outcome q r = .error (.failed e)) : s.Fails tx q e := by
  have hd : (s.peer.reply q).delayMs = r.delayMs := by rw [← hr]; rfl
  unfold outcome at h
  split at h
  · rename_i hs
    unfold settle at h
    split at h
    · rename_i hl
      cases h
      exact .late fun hh => absurd hh.2 (by rw [hd]; omega)
    · rename_i hl
      have hh : s.Heard q := ⟨hs, by rw [hd]; omega⟩
      have ha : (s.peer.reply q).answer = r.forget.answer := by rw [hr]
      cases hra : r.answer with
      | ok a => rw [hra] at h; cases h
      | refused c text =>
        rw [hra] at h
        cases h
        exact fails_statusError hh (by rw [ha]; simp only [Reply.forget, hra])
      | unreachable text =>
        rw [hra] at h
        cases h
        exact .unreachable hh (by rw [ha]; simp only [Reply.forget, hra])
  · cases h

end Session
end LedgerClient.Gateway

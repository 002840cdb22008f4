import LedgerClient.Proofs.Gateway.Call
/-!
# Stages of a flow

Each stage of a flow is the same: a message is signed, a request is sent with the signature, and the answer is looked
at (`Stage.run`).  How a stage can go is known from the signer and the peer (`Stage.after_run`, `Stage.Ends`); it
succeeds exactly if its request passes (`Stage.after_run_eq_ok_iff`).
-/
namespace LedgerClient.Gateway

open Message

variable {α β : Type}

/-- One stage of a session's flow. -/
structure Stage (s : Session) (α β : Type) where
  message : List UInt8
  /-- The request, by the signature on the message. -/
  request : List UInt8 → Request
  reply : List UInt8 → Reply α
  reply_forget : ∀ σ, (reply σ).forget = s.peer.reply (request σ)
  look : α → Except CallError β
  /-- What is reported of how the call went; nothing, if it brought an answer. -/
  note : Except Stop α → List Event
  note_ok : ∀ a, note (.ok a) = []

theorem Session.after_sign (s : Session) (t : Trace) (message : List UInt8) :
    Run.after t (s.sign message) = ((s.signer t.signatures (sha256 message)).mapError .failed,
      { t with signatures := t.signatures + 1 }) := by
  unfold sign
  rw [Run.after_bind_ok (Run.after_nextSignature t), Run.after_ofExcept]

theorem Session.after_sign_ok {s : Session} {t : Trace} {message σ : List UInt8}
    (h : s.signer t.signatures (sha256 message) = .ok σ) :
    Run.after t (s.sign message) = (.ok σ, { t with signatures := t.signatures + 1 }) := by
  rw [s.after_sign, h]
  rfl

theorem Session.after_sign_error {s : Session} {t : Trace} {message : List UInt8} {e : CallError}
    (h : s.signer t.signatures (sha256 message) = .error e) :
    Run.after t (s.sign message) = (.error (.failed e), { t with signatures := t.signatures + 1 }) := by
  rw [s.after_sign, h]
  rfl

namespace Stage

variable {s : Session} (g : Stage s α β)

/-- How a stage can go, after one trace and up to another. -/
inductive Ends (t : Trace) : Except Stop β → Trace → Prop where
  | unsigned {e : CallError} (h : s.signer t.signatures (sha256 g.message) = .error e) :
      Ends t (.error (.failed e)) { t with signatures := t.signatures + 1 }
  | sent {σ : List UInt8} (h : s.signer t.signatures (sha256 g.message) = .ok σ) :
      Ends t ((s.outcome (g.request σ) (g.reply σ)).bind fun a => (g.look a).mapError .failed)
        { t with
          signatures := t.signatures + 1
          calls := t.calls ++ s.seen (g.request σ)
          events := t.events ++ g.note (s.outcome (g.request σ) (g.reply σ)) }

/-- The request was made, by a signature that came `n`th. -/
def Signed (n : Nat) (q : Request) : Prop := ∃ σ, s.signer n (sha256 g.message) = .ok σ ∧ q = g.request σ

/-- The request was made, and answered in time with what comes to `b`. -/
def Passed (n : Nat) (q : Request) (b : β) : Prop :=
  ∃ σ a, s.signer n (sha256 g.message) = .ok σ ∧ q = g.request σ ∧ s.Sendable q ∧
    (g.reply σ).Brings (s.deadline q) a ∧ g.look a = .ok b

variable {g} {t u : Trace}

theorem Passed.signed {n : Nat} {q : Request} {b : β} (h : g.Passed n q b) : g.Signed n q := by
  obtain ⟨σ, _, hσ, hq, _⟩ := h
  exact ⟨σ, hσ, hq⟩

/-- What passes a stage is answered in time. -/
theorem Passed.answered {n : Nat} {q : Request} {b : β} (h : g.Passed n q b) :
    s.Heard q ∧ (s.peer.reply q).answer = .ok () := by
  obtain ⟨σ, a, _, rfl, hs, hb, _⟩ := h
  rw [Session.Heard, ← g.reply_forget σ]
  exact ⟨⟨hs, hb.2⟩, by simp only [Reply.forget, hb.1]⟩

/-- There is one request that passes a stage, and one thing it comes to. -/
theorem Passed.unique {n : Nat} {q q' : Request} {b b' : β} (h : g.Passed n q b) (h' : g.Passed n q' b') :
    q = q' ∧ b = b' := by
  obtain ⟨σ, a, hσ, rfl, _, hb, hl⟩ := h
  obtain ⟨σ', a', hσ', rfl, _, hb', hl'⟩ := h'
  obtain rfl : σ = σ' := Except.ok.inj (hσ.symm.trans hσ')
  obtain rfl : a = a' := Answer.ok.inj (hb.1.symm.trans hb'.1)
  exact ⟨rfl, Except.ok.inj (hl.symm.trans hl')⟩

/-- A stage that succeeds leaves behind its request. -/
theorem Ends.of_ok {b : β} (h : g.Ends t (.ok b) u) :
    ∃ q, g.Passed t.signatures q b ∧
      u = { t with signatures := t.signatures + 1, calls := t.calls ++ [s.sent q] } := by
  generalize hx : (Except.ok b : Except Stop β) = x at h
  cases h with
  | unsigned => cases hx
  | @sent σ hσ =>
    cases ho : s.outcome (g.request σ) (g.reply σ) with
    | error y => rw [ho] at hx; cases hx
    | ok a =>
      obtain ⟨hsend, hs, hb⟩ := s.outcome_ok (g.reply_forget σ) ho
      rw [ho] at hx
      have hl : g.look a = .ok b := by
        cases hl : g.look a with
        | error e => simp only [Except.bind, hl] at hx; cases hx
        | ok b' => simp only [Except.bind, hl] at hx; cases hx; rfl
      exact ⟨g.request σ, ⟨σ, a, hσ, rfl, hsend, hb, hl⟩, by rw [hs, g.note_ok, List.append_nil]⟩

/-- A stage adds at most the one request it makes. -/
theorem Ends.calls {x : Except Stop β} (h : g.Ends t x u) :
    u.calls = t.calls ∨ ∃ q, g.Signed t.signatures q ∧ u.calls = t.calls ++ [s.sent q] := by
  cases h with
  | unsigned => exact .inl rfl
  | @sent σ hσ =>
    rcases s.seen_eq (g.request σ) with h0 | h1
    · exact .inl (by simp only [h0, List.append_nil])
    · exact .inr ⟨g.request σ, ⟨σ, hσ, rfl⟩, by simp only [h1]⟩

/-- A stage whose request was seen and answered in time comes to what is made of the answer. -/
theorem Ends.of_brings {x : Except Stop β} {c : Call} (h : g.Ends t x u) (hc : u.calls = t.calls ++ [c]) :
    ∃ σ, c = s.sent (g.request σ) ∧
      ∀ a, (g.reply σ).Brings c.deadline a → x = (g.look a).mapError .failed := by
  cases h with
  | unsigned => exact absurd (List.self_eq_append_right.1 hc) (List.cons_ne_nil _ _)
  | @sent σ hσ =>
    have hs : s.seen (g.request σ) = [c] := List.append_cancel_left hc
    rcases s.seen_eq (g.request σ) with h0 | h1
    · rw [h0] at hs
      cases hs
    · rw [h1] at hs
      cases hs
      refine ⟨σ, rfl, fun a ha => ?_⟩
      rw [Session.outcome_of_brings (by rw [h1]; exact List.cons_ne_nil _ _) ha]
      rfl

/-! ## Running it -/

def run (g : Stage s α β) : Run β := do
  let σ ← s.sign g.message
  let a ← Run.observe (s.call (g.request σ) (g.reply σ)) fun x => Run.reports (g.note x)
  Run.ofExcept (g.look a)

theorem after_run_unsigned {e : CallError} (h : s.signer t.signatures (sha256 g.message) = .error e) :
    Run.after t g.run = (.error (.failed e), { t with signatures := t.signatures + 1 }) := by
  rw [run, Run.after_bind_error (Session.after_sign_error h)]

/-- **A stage that is signed** comes to what is made of the outcome of its call. -/
theorem after_run {σ : List UInt8} (h : s.signer t.signatures (sha256 g.message) = .ok σ) :
    Run.after t g.run =
      ((s.outcome (g.request σ) (g.reply σ)).bind fun a => (g.look a).mapError .failed,
        { t with
          signatures := t.signatures + 1
          calls := t.calls ++ s.seen (g.request σ)
          events := t.events ++ g.note (s.outcome (g.request σ) (g.reply σ)) }) := by
  rw [run, Run.after_bind_ok (Session.after_sign_ok h), Run.after_bind, Run.after_observe,
    s.after_call _ (g.reply_forget σ)]
  cases s.outcome (g.request σ) (g.reply σ) with
  | error y => rfl
  | ok a =>
    dsimp only
    rw [Run.after_ofExcept, Run.after_reports]
    rfl

theorem Ends.of_run {x : Except Stop β} (h : Run.after t g.run = (x, u)) : g.Ends t x u := by
  cases hσ : s.signer t.signatures (sha256 g.message) with
  | error e =>
    rw [after_run_unsigned hσ] at h
    cases h
    exact .unsigned hσ
  | ok σ =>
    rw [after_run hσ] at h
    cases h
    exact .sent hσ

/-- **A stage succeeds exactly with the request that passes it.** -/
theorem after_run_eq_ok_iff {b : β} : Run.after t g.run = (.ok b, u) ↔ ∃ q, g.Passed t.signatures q b ∧
    u = { t with signatures := t.signatures + 1, calls := t.calls ++ [s.sent q] } := by
  constructor
  · exact fun h => (Ends.of_run h).of_ok
  -- what is answered in time was seen, so its outcome is the answer
  · rintro ⟨q, ⟨σ, a, hσ, rfl, hsend, hb, hl⟩, rfl⟩
    have hseen : s.seen (g.request σ) = [s.sent (g.request σ)] :=
      if_pos ⟨hsend, by rw [← g.reply_forget σ, Reply.reached_forget, hb.reached]⟩
    have hout : s.outcome (g.request σ) (g.reply σ) = .ok a :=
      Session.outcome_of_brings (by rw [hseen]; exact List.cons_ne_nil _ _) hb
    rw [after_run hσ, hout, hseen, g.note_ok, List.append_nil]
    simp only [Except.bind, hl]
    rfl

end Stage

/-- A call that nothing is reported of, and an answer that is looked at. -/
theorem Session.call_look {s : Session} {γ : Type} (q : Request) (r : Reply α) (k : α → Run γ) :
    (Run.observe (s.call q r) (fun _ => Run.reports []) >>= k) = s.call q r >>= k :=
  Run.ext fun t => by rw [Run.after_bind, Run.after_observe, Run.after_reports, List.append_nil, Run.after_bind]

end LedgerClient.Gateway

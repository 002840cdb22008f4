import LedgerClient.Proofs.Client.Opening
import LedgerClient.Proofs.Gateway.Submission
/-!
# Nothing is kept between calls

A run is steady if it ends in the same way whatever was done before it (`Run.Steady`).  A session looks at what was done
before only to number its signatures, and the signer of a call does not look at the number: calls are steady
(`Invocation.write_steady`, `Invocation.read_steady`).
-/
namespace LedgerClient

variable {α β : Type}

namespace Run

/-- The run ends in the same way after every trace. -/
def Steady (r : Run α) : Prop := ∀ t u, (after t r).1 = (after u r).1

theorem steady_pure (a : α) : (pure a : Run α).Steady := fun _ _ => rfl

theorem steady_fail (e : CallError) : (fail e : Run α).Steady := fun _ _ => rfl

theorem steady_ofExcept (r : Except CallError α) : (ofExcept r).Steady := fun t u => by
  rw [after_ofExcept, after_ofExcept]

theorem steady_report (e : Event) : (report e).Steady := fun _ _ => rfl

/-- **Steady runs one after the other are steady**; of what follows, only what can follow counts. -/
theorem Steady.bind_of {r : Run α} {k : α → Run β} (h : r.Steady)
    (hk : ∀ t u a, after t r = (.ok a, u) → (k a).Steady) : (r >>= k).Steady := by
  intro t u
  have hr := h t u
  rcases ht : after t r with ⟨x | a, t'⟩ <;> rcases hu : after u r with ⟨y | b, u'⟩ <;>
    rw [ht, hu] at hr <;> cases hr
  · rw [after_bind_error ht, after_bind_error hu]
  · rw [after_bind_ok ht, after_bind_ok hu]
    exact hk t t' a ht t' u'

theorem Steady.bind {r : Run α} {k : α → Run β} (h : r.Steady) (hk : ∀ a, (k a).Steady) : (r >>= k).Steady :=
  h.bind_of fun _ _ a _ => hk a

theorem Steady.observe {r : Run α} (h : r.Steady) (k : Except Stop α → Run Unit) : (observe r k).Steady :=
  fun t u => by rw [after_observe, after_observe, h t u]

end Run

/-! ## Sessions -/

namespace Gateway.Session

open Message

variable {s : Session}

/-- The signer does not look at how many signatures were asked for before. -/
def SignsAlike (s : Session) : Prop := ∀ m n d, s.signer m d = s.signer n d

theorem sign_steady (hs : s.SignsAlike) (message : List UInt8) : (s.sign message).Steady := fun t u => by
  rw [s.after_sign, s.after_sign, hs t.signatures u.signatures]

theorem call_steady {q : Request} {r : Reply α} (hr : r.forget = s.peer.reply q) : (s.call q r).Steady := fun t u => by
  rw [s.after_call t hr, s.after_call u hr]

theorem requireOpen_steady : s.requireOpen.Steady := by
  unfold requireOpen
  split
  · exact Run.steady_pure _
  · exact Run.steady_fail _

variable (fresh : Fresh) (channel chaincode function tx : String) (payload : List UInt8)

theorem signedProposal_steady (hs : s.SignsAlike) :
    (s.signedProposal fresh channel chaincode function payload).Steady :=
  (sign_steady hs _).bind fun _ => Run.steady_pure _

theorem endorse_steady (signed : SignedProposal) : (s.endorse tx channel signed).Steady := by
  refine (call_steady rfl).bind fun r => ?_
  split
  · exact Run.steady_pure _
  · exact Run.steady_fail _

theorem submitEnvelope_steady (hs : s.SignsAlike) (e : Envelope) : (s.submitEnvelope tx channel e).Steady :=
  (sign_steady hs _).bind fun _ => (call_steady rfl).bind fun _ => Run.steady_pure _

theorem commitStatus_steady (hs : s.SignsAlike) : (s.commitStatus tx channel).Steady :=
  (sign_steady hs _).bind fun _ => (call_steady rfl).observe _

/-- **A write is steady** if its signer is. -/
theorem submitTransaction_steady (hs : s.SignsAlike) :
    (s.submitTransaction fresh channel chaincode function payload).Steady := by
  refine (signedProposal_steady fresh channel chaincode function payload hs).bind fun ⟨tx, signed⟩ => ?_
  refine requireOpen_steady.bind fun _ => (endorse_steady channel tx signed).bind fun e => ?_
  refine (submitEnvelope_steady channel tx hs e).bind fun _ => (commitStatus_steady channel tx hs).bind fun r => ?_
  split
  · exact Run.steady_pure _
  · exact Run.steady_fail _

/-- **A query is steady** if its signer is. -/
theorem evaluateTransaction_steady (hs : s.SignsAlike) :
    (s.evaluateTransaction fresh channel chaincode function payload).Steady := by
  refine (signedProposal_steady fresh channel chaincode function payload hs).bind fun ⟨tx, signed⟩ => ?_
  refine requireOpen_steady.bind fun _ => (call_steady rfl).bind fun r => ?_
  split
  · exact Run.steady_fail _
  · split
    · exact Run.steady_fail _
    · exact Run.steady_pure _

end Gateway.Session

/-! ## Calls -/

theorem KeyStore.load_steady (files : Storage.FileTree) (home dir : String) (strict : Bool) :
    (KeyStore.load files home dir strict).Steady := by
  refine Run.Steady.bind ?_ fun path => Run.steady_ofExcept _
  refine (Run.steady_ofExcept _).bind fun c => ?_
  split
  · exact (Run.steady_report _).bind fun _ => Run.steady_pure _
  · exact Run.steady_pure _

namespace Invocation

open Gateway (Fresh Session)

variable (w : Surroundings) (p : Policy) (i : Invocation) (fresh : Fresh)

theorem ready_steady : (LocalCheck.ready w p i).Steady := by
  unfold LocalCheck.ready
  rw [openSession_eq]
  refine Run.Steady.bind ?_ fun s => (Run.steady_ofExcept _).bind fun _ => Run.steady_pure _
  refine (Run.steady_ofExcept _).bind fun τ => (Run.steady_ofExcept _).bind fun d => ?_
  exact (KeyStore.load_steady _ _ _ _).bind fun k => Run.steady_pure _

theorem Opened.signsAlike {s : Session} (h : Opened w p i s) : s.SignsAlike := by
  obtain ⟨τ, d, k, _, _, _, _, _, rfl⟩ := h
  exact fun _ _ _ => rfl

/-- **A write ends in one way**, whatever was done before it. -/
theorem write_steady : (i.write w p fresh).Steady := by
  rw [write_eq]
  refine ((ready_steady w p i).bind_of fun _ _ s hs => ?_).observe _
  exact Session.submitTransaction_steady _ _ _ _ _ (ready_ok hs).signsAlike

/-- **A query ends in one way**, whatever was done before it. -/
theorem read_steady : (i.read w p fresh).Steady := by
  rw [read_eq]
  refine ((ready_steady w p i).bind_of fun _ _ s hs => ?_).observe _
  exact Session.evaluateTransaction_steady _ _ _ _ _ (ready_ok hs).signsAlike

end Invocation
end LedgerClient

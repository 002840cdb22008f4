import LedgerClient.Proofs.Client.LocalChecks
/-!
# What a session is opened with

A session is opened with a transport, an identity and a key (`openSession_eq`), each of which comes from the call and
its surroundings alone.  Whoever gets a session gets the peer that the transport finds (`openSession_ok`).
-/
namespace LedgerClient.Invocation

open Gateway (Session)

variable (w : Surroundings) (p : Policy) (i : Invocation)

/-- The way to the peer, with the certificate it has to be trusted by. -/
def transport : Except CallError Network.Transport :=
  (Certificate.load w.files w.home i.anchorPath).bind fun a => Network.Transport.connect a i.endpoint i.peerName

def identity : Except CallError Identity :=
  (Certificate.load w.files w.home i.certPath).bind (Identity.make i.mspId)

def key : Run P256.PrivateKey := KeyStore.load w.files w.home i.keyDir p.strictKeys

/-- The session of a call, by what it is opened with. -/
def session (τ : Network.Transport) (identity : Identity) (key : P256.PrivateKey) : Session where
  identity
  signer _ d := SigningKey.sign key d
  peer := w.reach τ
  timeouts := p.timeouts
  link := .network

variable {w p i}

/-- **A session is opened with a transport, an identity and a key**, in this order. -/
theorem openSession_eq (w : Surroundings) (p : Policy) (i : Invocation) :
    i.openSession w p = Run.ofExcept (transport w i) >>= fun τ => Run.ofExcept (identity w i) >>= fun d =>
      key w p i >>= fun k => pure (session w p τ d k) := by
  unfold transport identity
  simp only [Run.ofExcept_bind, bind_assoc]
  unfold Invocation.openSession
  refine bind_congr fun a => ?_
  cases hτ : Network.Transport.connect a i.endpoint i.peerName with
  | error e => rw [Run.ofExcept_error_bind, Run.ofExcept_error_bind]
  | ok τ =>
    -- a transport that was just set up is open
    simp only [Run.ofExcept_ok, pure_bind, LocalCheck.connect_channel hτ]
    rfl

/-- A session of the call, with the transport, the identity and the key of the call. -/
def Opened (w : Surroundings) (p : Policy) (i : Invocation) (s : Session) : Prop :=
  ∃ τ d k t u, transport w i = .ok τ ∧ identity w i = .ok d ∧ Run.after t (key w p i) = (.ok k, u) ∧
    s = session w p τ d k

/-- **Who gets a session gets the peer that its transport finds**, as its identity, with its key. -/
theorem openSession_ok {t u : Trace} {s : Session} (h : Run.after t (i.openSession w p) = (.ok s, u)) :
    Opened w p i s := by
  rw [openSession_eq] at h
  obtain ⟨_, _, hx⟩ | ⟨τ, t₁, hτ, h⟩ := Run.of_after_bind h
  · cases hx
  obtain ⟨_, _, hx⟩ | ⟨d, t₂, hd, h⟩ := Run.of_after_bind h
  · cases hx
  obtain ⟨_, _, hx⟩ | ⟨k, _, hk, h⟩ := Run.of_after_bind h
  · cases hx
  cases h
  exact ⟨τ, d, k, t₂, u, (Run.of_after_ofExcept hτ).1, (Run.of_after_ofExcept hd).1, hk, rfl⟩

/-- The session that is ready is the one that was opened. -/
theorem ready_ok {t u : Trace} {s : Session} (h : Run.after t (LocalCheck.ready w p i) = (.ok s, u)) :
    Opened w p i s := by
  obtain ⟨_, _, hx⟩ | ⟨s', t₁, hs, h⟩ := Run.of_after_bind h
  · cases hx
  obtain ⟨_, _, hx⟩ | ⟨_, t₂, _, h⟩ := Run.of_after_bind h
  · cases hx
  cases h
  exact openSession_ok hs

/-- The certificate that a peer has to be trusted by is the one in the file. -/
theorem load_of_transport {τ : Network.Transport} (h : transport w i = .ok τ) :
    Certificate.load w.files w.home i.anchorPath = .ok τ.anchor := by
  unfold transport at h
  cases ha : Certificate.load w.files w.home i.anchorPath with
  | error e =>
    rw [ha] at h
    cases h
  | ok a =>
    rw [ha] at h
    change Network.Transport.connect a i.endpoint i.peerName = .ok τ at h
    unfold Network.Transport.connect at h
    split at h
    · cases h
    · cases h
      rfl

end LedgerClient.Invocation

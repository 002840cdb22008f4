import LedgerClient.Client.Invocation
import LedgerClient.Proofs.Run
/-!
# Local checks

A call is checked where it is made before the peer hears of it.  There are nine checks, none of which asks what came
of another (`LocalCheck.error?`), and both operations make them in one order: the error of a call is that of the first
check that fails, and then nothing was sent (`local_checks`).
-/
namespace LedgerClient

variable {α β : Type}

/-- The error of a result that is none. -/
def refusal : Except CallError α → Option CallError
  | .ok _ => none
  | .error e => some e

namespace Run

/-- A run that sends nothing: it stops with the error there is, or goes on with a value that satisfies `P`. -/
def Checks (r : Run α) (o : Option CallError) (P : α → Prop) : Prop :=
  ∀ t, ∃ u, u.calls = t.calls ∧
    ((∃ e, o = some e ∧ after t r = (.error (.failed e), u)) ∨ (o = none ∧ ∃ a, P a ∧ after t r = (.ok a, u)))

theorem checks_pure {P : α → Prop} {a : α} (h : P a) : (pure a : Run α).Checks none P :=
  fun t => ⟨t, rfl, .inr ⟨rfl, a, h, after_pure t a⟩⟩

theorem checks_ofExcept (r : Except CallError α) : (ofExcept r).Checks (refusal r) (fun a => r = .ok a) := by
  intro t
  cases r with
  | ok a => exact ⟨t, rfl, .inr ⟨rfl, a, rfl, after_ofExcept t _⟩⟩
  | error e => exact ⟨t, rfl, .inl ⟨e, rfl, after_ofExcept t _⟩⟩

theorem Checks.imp {r : Run α} {o : Option CallError} {P Q : α → Prop} (h : r.Checks o P) (hq : ∀ a, P a → Q a) :
    r.Checks o Q := by
  intro t
  obtain ⟨u, hu, hr | ⟨ho, a, ha, hr⟩⟩ := h t
  · exact ⟨u, hu, .inl hr⟩
  · exact ⟨u, hu, .inr ⟨ho, a, hq a ha, hr⟩⟩

/-- **Checks one after the other** fail with the first that fails. -/
theorem Checks.bind {r : Run α} {k : α → Run β} {o o' : Option CallError} {P : α → Prop} {Q : β → Prop}
    (h : r.Checks o P) (hk : ∀ a, P a → (k a).Checks o' Q) : (r >>= k).Checks (o.or o') Q := by
  intro t
  obtain ⟨u, hu, ⟨e, rfl, hr⟩ | ⟨rfl, a, ha, hr⟩⟩ := h t
  · exact ⟨u, hu, .inl ⟨e, rfl, after_bind_error hr k⟩⟩
  · obtain ⟨v, hv, hd⟩ := hk a ha u
    rw [← after_bind_ok hr k] at hd
    exact ⟨v, hv.trans hu, hd⟩

end Run

/-- The checks of a call, one for each thing that can be wrong with it. -/
inductive LocalCheck where
  | anchor
  | endpoint
  | peerName
  | target
  | certificate
  | mspId
  | key
  | network
  | contract
deriving DecidableEq, Repr

namespace LocalCheck

open Gateway (Session)
open Network (endpointUri uriOk isServerName)

variable (w : Surroundings) (p : Policy) (i : Invocation)

/-- What is wrong by each check. -/
def error? : LocalCheck → Option CallError
  | anchor => refusal (Certificate.load w.files w.home i.anchorPath)
  | endpoint => refusal ((endpointUri i.endpoint).mapError .connection)
  | peerName => if IsBlank i.peerName then some (.connection .blankServerName) else none
  | target => match endpointUri i.endpoint with
    | .error _ => none
    | .ok uri =>
      if !uriOk uri then some (.connection (.uri (String.ofList uri)))
      else if !isServerName i.peerName.toList then some (.connection (.serverName i.peerName))
      else none
  | certificate => refusal (Certificate.load w.files w.home i.certPath)
  | mspId => if IsBlank i.mspId then some (.identity .blankMsp) else none
  | key => match KeyStore.choose w.files (Storage.expandHome w.home i.keyDir) p.strictKeys with
    | .error e => some e
    | .ok c => refusal (KeyStore.readKey w.files c.path)
  | network => refusal (Session.checkNetwork i.network)
  | contract => refusal (Session.checkContract i.contract)

/-- The order of the checks. -/
def all : List LocalCheck :=
  [anchor, endpoint, peerName, target, certificate, mspId, key, network, contract]

/-- What is wrong by the first check that fails. -/
def firstError? : Option CallError := all.findSome? (error? w p i)

theorem mem_all (c : LocalCheck) : c ∈ all := by
  cases c <;> decide

/-! ## The order is kept -/

theorem firstError?_eq :
    firstError? w p i = (error? w p i anchor).or ((error? w p i endpoint).or ((error? w p i peerName).or
      ((error? w p i target).or ((error? w p i certificate).or ((error? w p i mspId).or ((error? w p i key).or
      ((error? w p i network).or (error? w p i contract)))))))) := by
  have hc : ∀ (c : LocalCheck) (cs : List LocalCheck),
      (c :: cs).findSome? (error? w p i) = (error? w p i c).or (cs.findSome? (error? w p i)) := fun c cs => by
    rw [List.findSome?_cons]
    cases error? w p i c <;> rfl
  simp only [firstError?, all, hc, List.findSome?_nil, Option.or_none]

theorem refusal_connect (a : Certificate) :
    refusal (Network.Transport.connect a i.endpoint i.peerName) =
      (error? w p i endpoint).or ((error? w p i peerName).or (error? w p i target)) := by
  simp only [Network.Transport.connect, Network.checkTarget, error?]
  cases endpointUri i.endpoint with
  | error c => rfl
  | ok uri =>
    dsimp only
    by_cases hb : IsBlank i.peerName
    · rw [if_pos hb, if_pos hb]
      rfl
    rw [if_neg hb, if_neg hb]
    by_cases hu : (!uriOk uri) = true
    · rw [if_pos hu, if_pos hu]
      rfl
    rw [if_neg hu, if_neg hu]
    by_cases hn : (!isServerName i.peerName.toList) = true
    · rw [if_pos hn, if_pos hn]
      rfl
    · rw [if_neg hn, if_neg hn]
      rfl

theorem refusal_make (c : Certificate) : refusal (Identity.make i.mspId c) = error? w p i mspId := by
  simp only [Identity.make, error?]
  split <;> rfl

theorem refusal_bind :
    refusal (Session.bind i.network i.contract) = (error? w p i network).or (error? w p i contract) := by
  simp only [Session.bind, error?]
  cases Session.checkNetwork i.network <;> rfl

/-- A transport that was just set up is open. -/
theorem connect_channel {a : Certificate} {endpoint name : String} {t : Network.Transport}
    (h : Network.Transport.connect a endpoint name = .ok t) : t.channel = .ok () := by
  unfold Network.Transport.connect at h
  split at h <;> cases h
  rfl

/-- A choice among many keys is reported, which sends nothing. -/
theorem select_checks (dir : String) (strict : Bool) :
    (KeyStore.select w.files dir strict).Checks (refusal (KeyStore.choose w.files dir strict)) fun path =>
      ∃ c, KeyStore.choose w.files dir strict = .ok c ∧ path = c.path := by
  rw [← (refusal _).or_none]
  refine (Run.checks_ofExcept _).bind fun c hc t => ?_
  split
  · exact ⟨{ t with events := t.events ++ [.manyKeys dir c.count c.path] }, rfl,
      .inr ⟨rfl, c.path, ⟨c, hc, rfl⟩, rfl⟩⟩
  · exact ⟨t, rfl, .inr ⟨rfl, c.path, ⟨c, hc, rfl⟩, rfl⟩⟩

theorem load_checks :
    (KeyStore.load w.files w.home i.keyDir p.strictKeys).Checks (error? w p i key) fun _ => True := by
  have h := select_checks w (Storage.expandHome w.home i.keyDir) p.strictKeys
  unfold KeyStore.load error?
  cases hc : KeyStore.choose w.files (Storage.expandHome w.home i.keyDir) p.strictKeys with
  | error e =>
    rw [hc] at h
    show Run.Checks _ ((some e).or none) _
    refine h.bind fun path hp => ?_
    obtain ⟨c, hc', _⟩ := hp
    cases hc'
  | ok c =>
    rw [hc] at h
    show Run.Checks _ (Option.or none (refusal (KeyStore.readKey w.files c.path))) _
    refine h.bind fun path hp => ?_
    obtain ⟨c', hc', rfl⟩ := hp
    cases hc'
    exact (Run.checks_ofExcept _).imp fun _ _ => trivial

/-- **A session is opened after the first seven checks.** -/
theorem openSession_checks :
    (i.openSession w p).Checks
      ((error? w p i anchor).or (((error? w p i endpoint).or ((error? w p i peerName).or (error? w p i target))).or
        ((error? w p i certificate).or ((error? w p i mspId).or ((error? w p i key).or none)))))
      fun s => s.isOpen = true := by
  unfold Invocation.openSession
  refine (Run.checks_ofExcept _).bind fun a _ => ?_
  rw [← refusal_connect w p i a]
  refine (Run.checks_ofExcept _).bind fun transport ht => ?_
  refine (Run.checks_ofExcept _).bind fun c _ => ?_
  rw [← refusal_make w p i c]
  refine (Run.checks_ofExcept _).bind fun identity _ => ?_
  refine (load_checks w p i).bind fun k _ => ?_
  rw [connect_channel ht]
  exact Run.checks_pure rfl

/-- What both operations do first: open a session and look at the names. -/
def ready : Run Session := do
  let s ← i.openSession w p
  Run.ofExcept (Session.bind i.network i.contract)
  pure s

/-- **All nine checks are made in order, and no other.** -/
theorem ready_checks : (ready w p i).Checks (firstError? w p i) fun s => s.isOpen = true := by
  have h : (ready w p i).Checks _ fun s => s.isOpen = true :=
    (openSession_checks w p i).bind fun s hs => (Run.checks_ofExcept _).bind fun _ _ => Run.checks_pure hs
  rw [firstError?_eq]
  rw [refusal_bind w p i] at h
  simpa only [Option.or_none, Option.or_assoc] using h

end LocalCheck

namespace Invocation

open Gateway (Fresh Session)
open LocalCheck (ready)

variable {w : Surroundings} {p : Policy} {i : Invocation}

theorem account_calls (op : Operation) (x : Except Stop α) (t : Trace) :
    (Run.after t (account op i x)).2.calls = t.calls := by
  rcases x with (e | _) | a <;> rfl

theorem write_eq (fresh : Fresh) : i.write w p fresh = Run.observe (ready w p i >>= fun s =>
    s.submitTransaction fresh i.network i.contract i.function i.payload) (account .write i) := by
  simp only [write, ready, Session.submit, bind_assoc, pure_bind]

theorem read_eq (fresh : Fresh) : i.read w p fresh = Run.observe (ready w p i >>= fun s =>
    s.evaluateTransaction fresh i.network i.contract i.function i.payload) (account .read i) := by
  simp only [read, ready, Session.evaluate, bind_assoc, pure_bind]

section Operations

variable {t u : Trace} {r : Run α} {op : Operation} {k : Session → Run α}

/-- An operation that is not ready ends with the error, and its account sends nothing. -/
theorem after_not_ready (hr : r = Run.observe (ready w p i >>= k) (account op i)) {e : CallError}
    (h : Run.after t (ready w p i) = (.error (.failed e), u)) :
    (Run.after t r).1 = .error (.failed e) ∧ (Run.after t r).2.calls = u.calls := by
  rw [hr, Run.after_observe, account_calls, Run.after_bind_error h]
  exact ⟨rfl, rfl⟩

/-- An operation that is ready ends as it does with the session. -/
theorem after_ready (hr : r = Run.observe (ready w p i >>= k) (account op i)) {s : Session}
    (h : Run.after t (ready w p i) = (.ok s, u)) :
    (Run.after t r).1 = (Run.after u (k s)).1 ∧ (Run.after t r).2.calls = (Run.after u (k s)).2.calls := by
  rw [hr, Run.after_observe, account_calls, Run.after_bind_ok h]
  exact ⟨rfl, rfl⟩

end Operations

/-- **Both operations make the same checks in the same order.**  If one fails, the first that does gives the error of
both, and nothing is sent; what is sent means that all have passed; and then both go on with the same session. -/
theorem local_checks (w : Surroundings) (p : Policy) (i : Invocation) (fresh fresh' : Fresh) (t : Trace) :
    let written := Run.after t (i.write w p fresh)
    let read := Run.after t (i.read w p fresh')
    (∀ e, LocalCheck.firstError? w p i = some e →
      written.1 = .error (.failed e) ∧ read.1 = .error (.failed e) ∧
        written.2.calls = t.calls ∧ read.2.calls = t.calls) ∧
    (written.2.calls ≠ t.calls ∨ read.2.calls ≠ t.calls → ∀ c, LocalCheck.error? w p i c = none) ∧
    (LocalCheck.firstError? w p i = none → ∃ (s : Session) (u : Trace), s.isOpen = true ∧ u.calls = t.calls ∧
      (let sent := Run.after u (s.submitTransaction fresh i.network i.contract i.function i.payload)
       written.1 = sent.1 ∧ written.2.calls = sent.2.calls) ∧
      (let sent := Run.after u (s.evaluateTransaction fresh' i.network i.contract i.function i.payload)
       read.1 = sent.1 ∧ read.2.calls = sent.2.calls)) := by
  obtain ⟨u, hu, ⟨e, he, hr⟩ | ⟨hn, s, hs, hr⟩⟩ := LocalCheck.ready_checks w p i t
  · have hw := after_not_ready (write_eq fresh) hr
    have hd := after_not_ready (read_eq fresh') hr
    rw [hu] at hw hd
    generalize Run.after t (i.write w p fresh) = written at hw ⊢
    generalize Run.after t (i.read w p fresh') = read at hd ⊢
    rw [he]
    refine ⟨fun e' he' => ?_, fun hc => ?_, nofun⟩
    · cases he'
      exact ⟨hw.1, hd.1, hw.2, hd.2⟩
    · exact absurd hc (by rw [hw.2, hd.2]; simp)
  · have hw := after_ready (write_eq fresh) hr
    have hd := after_ready (read_eq fresh') hr
    generalize Run.after t (i.write w p fresh) = written at hw ⊢
    generalize Run.after t (i.read w p fresh') = read at hd ⊢
    refine ⟨fun e he => ?_, fun _ c => ?_, fun _ => ⟨s, u, hs, hu, hw, hd⟩⟩
    · rw [hn] at he
      cases he
    · exact List.findSome?_eq_none_iff.1 hn c c.mem_all

end Invocation
end LedgerClient

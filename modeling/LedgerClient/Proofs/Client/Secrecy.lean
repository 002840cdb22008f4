import LedgerClient.Proofs.Client.FirstCertificate
import LedgerClient.Proofs.Client.Outline
import LedgerClient.Proofs.Gateway.Blindness
import LedgerClient.Proofs.Storage.OneFile
/-!
# Payloads and keys are not reported

Two calls that differ in their payloads, or in the contents of the key file that both choose, come to the same up to
their transactions if the peer is blind to payloads and signatures: they are measured alike, and what they report and
the errors they end with say nothing of either (`BridgeCall.no_secret_reported`).  That holds as long as the key file
is not read for a certificate as well.
-/
namespace LedgerClient

open Gateway (Fresh Session)
open Invocation (account key session)
open LocalCheck (ready)
open Storage (DifferAt FileTree)

variable {tx tx' : String}

/-! ## Keys -/

theorem ofExcept_upTo {α : Type} (r : Except CallError α) :
    (upTo tx tx').Relates Eq (Run.ofExcept r) (Run.ofExcept r) := by
  cases r with
  | ok a => exact Comparison.relates_pure rfl
  | error e => exact Comparison.relates_fail (upTo_stops_refl _)

namespace KeyStore

variable {p : List String} {files files' : FileTree} {dir : String}

theorem candidates_differAt (h : DifferAt p files files') (names : List String) :
    candidates files' dir names = candidates files dir names := by
  induction names with
  | nil => rfl
  | cons n ns ih => unfold candidates; rw [h.isFile, ih]

/-- **The choice among key files does not look into them.** -/
theorem choose_differAt (h : DifferAt p files files') (strict : Bool) :
    choose files' dir strict = choose files dir strict := by
  unfold choose chooseAmong
  rw [h.list]
  simp only [candidates_differAt h]

theorem report_upTo (e : Event) : (upTo tx tx').Relates Eq (Run.report e) (Run.report e) := fun _ _ ht =>
  .ok rfl ⟨ht.1, List.rel_append ht.2 (.cons (.refl e) .nil)⟩

/-- The keys that are read from the chosen file are there in both trees, or the same comes of reading them. -/
def ReadAlike (files files' : FileTree) (path : String) : Prop :=
  readKey files' path = readKey files path ∨ ∃ k k', readKey files path = .ok k ∧ readKey files' path = .ok k'

theorem readKey_upTo {path : String} (h : ReadAlike files files' path) :
    (upTo tx tx').Relates (fun _ _ => True) (Run.ofExcept (readKey files path))
      (Run.ofExcept (readKey files' path)) := by
  rcases h with h | ⟨k, k', hk, hk'⟩
  · rw [h]
    exact (ofExcept_upTo _).imp fun _ _ _ => trivial
  · rw [hk, hk']
    exact Comparison.relates_pure trivial

/-- **Loading the key warns of the same** whatever the key is. -/
theorem load_upTo {home : String} {strict : Bool}
    (hc : choose files' (Storage.expandHome home dir) strict = choose files (Storage.expandHome home dir) strict)
    (hr : ∀ c, choose files (Storage.expandHome home dir) strict = .ok c → ReadAlike files files' c.path) :
    (upTo tx tx').Relates (fun _ _ => True) (load files home dir strict) (load files' home dir strict) := by
  unfold load select
  rw [hc]
  cases h : choose files (Storage.expandHome home dir) strict with
  | error e => exact Comparison.relates_fail (upTo_stops_refl _)
  | ok c =>
    simp only [Run.ofExcept_ok, pure_bind]
    split
    · simp only [bind_assoc, pure_bind]
      exact (report_upTo _).bind_eq fun _ => readKey_upTo (hr c h)
    · simp only [pure_bind]
      exact readKey_upTo (hr c h)

end KeyStore

/-! ## Calls -/

namespace BridgeCall

/-- **The calls differ in their payloads, or in the contents of the key file that is chosen**, which holds a key in
both; and in what makes their proposals fresh. -/
inductive Differ (b : BridgeCall) : BridgeCall → Prop where
  | payload (fresh : Fresh) (payload : List UInt8) :
      Differ b { b with fresh, invocation := { b.invocation with payload } }
  | key (fresh : Fresh) {files : FileTree} {c : KeyStore.Choice} {place : List String} {contents : List UInt8}
      {k k' : P256.PrivateKey}
      (hc : KeyStore.choose b.surroundings.files (Storage.expandHome b.surroundings.home b.invocation.keyDir)
        b.policy.strictKeys = .ok c)
      (hplace : b.surroundings.files.resolve c.path = .ok (place, .file contents))
      (hfiles : DifferAt place b.surroundings.files files)
      (hk : KeyStore.readKey b.surroundings.files c.path = .ok k) (hk' : KeyStore.readKey files c.path = .ok k') :
      Differ b { b with fresh, surroundings := { b.surroundings with files } }

/-- The certificates that are read are the same, the anchor and the caller's own. -/
def SameCertificates (b b' : BridgeCall) : Prop :=
  ∀ path, path = b.invocation.anchorPath ∨ path = b.invocation.certPath →
    Certificate.load b'.surroundings.files b'.surroundings.home path =
      Certificate.load b.surroundings.files b.surroundings.home path

/-- The peer that is found is blind to what the calls differ in. -/
def BlindPeer (b b' : BridgeCall) : Prop :=
  ∀ τ d, b.invocation.transport b.surroundings = .ok τ → b.invocation.identity b.surroundings = .ok d → ∀ k k',
    ∃ E, (session b.surroundings b.policy τ d k).Blind (session b'.surroundings b'.policy τ d k') b.asked b'.asked E

/-- What calls that differ so have in common. -/
structure Resemble (b b' : BridgeCall) : Prop where
  op : b'.op = b.op
  policy : b'.policy = b.policy
  invocation : b'.invocation = { b.invocation with payload := b'.invocation.payload }
  reach : b'.surroundings.reach = b.surroundings.reach
  transport : b'.invocation.transport b'.surroundings = b.invocation.transport b.surroundings
  identity : b'.invocation.identity b'.surroundings = b.invocation.identity b.surroundings
  key : ∀ tx tx', (upTo tx tx').Relates (fun _ _ => True) (key b.surroundings b.policy b.invocation)
    (key b'.surroundings b'.policy b'.invocation)

variable {b b' : BridgeCall}

theorem Differ.resemble (h : b.Differ b')
    (hc : b'.surroundings.files ≠ b.surroundings.files → b.SameCertificates b') : b.Resemble b' := by
  cases h with
  | payload => exact ⟨rfl, rfl, rfl, rfl, rfl, rfl, fun _ _ => KeyStore.load_upTo rfl fun _ _ => .inl rfl⟩
  | @key fresh files c _ _ k k' hchoose _ hfiles hk hk' =>
    have hsame : b.SameCertificates { b with fresh, surroundings := { b.surroundings with files } } := by
      by_cases hf : files = b.surroundings.files
      · rw [hf]
        exact fun _ _ => rfl
      · exact hc hf
    refine ⟨rfl, rfl, rfl, rfl, ?_, ?_, fun _ _ => ?_⟩
    · simp only [Invocation.transport, hsame _ (.inl rfl)]
    · simp only [Invocation.identity, hsame _ (.inr rfl)]
    · refine KeyStore.load_upTo (KeyStore.choose_differAt hfiles _) fun c' hc' => ?_
      cases hchoose.symm.trans hc'
      exact .inr ⟨_, _, hk, hk'⟩

structure Opens (b b' : BridgeCall) (s s' : Session) : Prop where
  twins : s.Twins s'
  isOpen : s.isOpen = true
  blind : ∃ E, s.Blind s' b.asked b'.asked E
  transaction : (s.proposal b.asked).transactionId = b.transaction
  transaction' : (s'.proposal b'.asked).transactionId = b'.transaction

theorem signs_session {w : Surroundings} {p : Policy} {τ : Network.Transport} {d : Identity} {k : P256.PrivateKey} :
    ∀ n digest e, (session w p τ d k).signer n digest = .error e → e = .identity .signing := by
  intro n digest e he
  change SigningKey.sign k digest = .error e at he
  unfold SigningKey.sign at he
  split at he <;> cases he
  rfl

theorem transactionId_session {τ : Network.Transport} {d : Identity} {k : P256.PrivateKey}
    (h : b.invocation.identity b.surroundings = .ok d) :
    ((session b.surroundings b.policy τ d k).proposal b.asked).transactionId = b.transaction := by
  rw [Session.proposal_transactionId, transaction, h]
  rfl

/-- **Calls that resemble each other open sessions that do**, and warn of the same before. -/
theorem Resemble.ready (h : b.Resemble b') (hp : b.BlindPeer b') (tx tx' : String) :
    (upTo tx tx').Relates (b.Opens b') (ready b.surroundings b.policy b.invocation)
      (ready b'.surroundings b'.policy b'.invocation) := by
  unfold LocalCheck.ready
  rw [Invocation.openSession_eq, Invocation.openSession_eq, h.transport, h.identity]
  cases hτ : b.invocation.transport b.surroundings with
  | error e => exact Comparison.relates_fail (upTo_stops_refl _)
  | ok τ =>
    cases hd : b.invocation.identity b.surroundings with
    | error e => exact Comparison.relates_fail (upTo_stops_refl _)
    | ok d =>
      simp only [Run.ofExcept_ok, pure_bind, bind_assoc]
      refine (h.key tx tx').bind fun k k' _ => ?_
      have hbind : Session.bind b'.invocation.network b'.invocation.contract =
          Session.bind b.invocation.network b.invocation.contract := by rw [h.invocation]
      rw [hbind]
      refine (ofExcept_upTo _).bind_eq fun _ => Comparison.relates_pure ?_
      refine ⟨⟨?_, signs_session, signs_session⟩, rfl, hp τ d hτ hd k k', transactionId_session hd,
        transactionId_session (h.identity.trans hd)⟩
      unfold session
      rw [h.reach, h.policy]

/-- **Accounts of ends that are the same up to the transaction** are so themselves. -/
theorem Resemble.inStep (h : b.Resemble b') {x x' : Except Stop Unit}
    (hx : SideBySide (Stop.UpTo tx tx') (fun _ _ => True) x x') :
    (upTo tx tx').InStep (account b.op b.invocation x) (account b'.op b'.invocation x') := by
  intro t t' ht
  have haccount : account b'.op b'.invocation x' = account b.op b.invocation x' := by
    rw [h.op, h.invocation]
    rfl
  rw [haccount]
  cases hx with
  | ok =>
    rw [Invocation.after_account b.op (by nofun), Invocation.after_account b.op (by nofun)]
    exact ⟨by rw [ht.1], List.rel_append ht.2 .nil⟩
  | error hstop =>
    cases hstop with
    | panicked => exact ht
    | failed he =>
      rw [Invocation.after_account b.op (by nofun), Invocation.after_account b.op (by nofun)]
      refine ⟨?_, List.rel_append ht.2 (.cons (.callFailed he _ _ _ _) .nil)⟩
      simp only [ht.1, Invocation.counted, errorOf, Option.map_some, Option.isNone_some, he.kind]

/-- **Payloads and keys are not reported.**  Calls that differ in their payloads or in the contents of the key file, and
in no certificate that is read, are measured alike, and their events and their ends differ in the names of their
transactions only, if their peer is blind to the difference and neither fails to sign. -/
theorem no_secret_reported (h : b.Differ b')
    (hc : b'.surroundings.files ≠ b.surroundings.files → b.SameCertificates b') (hp : b.BlindPeer b') (t : Trace)
    (hs : (b.after t).1 ≠ .error (.failed (.identity .signing)))
    (hs' : (b'.after t).1 ≠ .error (.failed (.identity .signing))) :
    (b'.after t).2.metrics = (b.after t).2.metrics ∧
    List.Forall₂ (Event.UpTo b.transaction b'.transaction) (b.after t).2.events (b'.after t).2.events ∧
    SideBySide (Stop.UpTo b.transaction b'.transaction) (fun _ _ => True) (b.after t).1 (b'.after t).1 := by
  have hr := h.resemble hc
  have hrelates : (upTo b.transaction b'.transaction).Relates (fun _ _ => True)
      (Run.observe (ready b.surroundings b.policy b.invocation >>= fun s => s.carryOut b.asked b.op)
        (account b.op b.invocation))
      (Run.observe (ready b'.surroundings b'.policy b'.invocation >>= fun s => s.carryOut b'.asked b'.op)
        (account b'.op b'.invocation)) := by
    refine ((hr.ready hp _ _).bind fun s s' ho => ?_).observe (fun _ _ h => hr.inStep (.ok h))
      fun _ _ h => hr.inStep (.error h)
    obtain ⟨E, hb⟩ := ho.blind
    rw [← ho.transaction, ← ho.transaction', hr.op]
    exact Session.carryOut_blind ho.twins hb ho.isOpen b.op
  have hends := hrelates t t (upTo_traces_refl t)
  rw [← after_eq, ← after_eq] at hends
  -- neither call has the excuse of a signature that failed
  generalize b.after t = ran, b'.after t = ran' at hends hs hs' ⊢
  cases hends with
  | ok h ht => exact ⟨ht.1, ht.2, .ok h⟩
  | stopped h ht => exact ⟨ht.1, ht.2, .error h⟩
  | left h => exact absurd (by rw [h]) hs
  | right h => exact absurd (by rw [h]) hs'

/-! Queries with one key file or another, of which the second holds a certificate as well. -/

open Gateway (Peer)
open Invocation (call smallKey smallSection)

def keyFile : List UInt8 := Pem.write ⟨.ecKey, smallKey⟩

def otherKeyFile : List UInt8 := Pem.write ⟨.ecKey, smallKey.dropLast ++ [2]⟩ ++ smallSection.text

def obligingPeer : Peer := { Peer.absent "" with evaluate := fun _ => ⟨.ok { result := some ⟨200, "", [1]⟩ }, 0⟩ }

/-- A tree with the key file, and a peer that answers every query. -/
def keyed (contents : List UInt8) : Surroundings where
  files := { entries := [(["anchor"], .file smallSection.text), (["cert"], .file smallSection.text),
    (["keys"], .folder), (["keys", "key"], .file contents)] }
  home := "/"
  reach _ := obligingPeer

def query (network certPath : String) (contents : List UInt8) : BridgeCall :=
  ⟨keyed contents, {}, ⟨[], {}⟩, .read, { call with network, certPath }⟩

theorem choose_keyed (contents : List UInt8) :
    KeyStore.choose (keyed contents).files (Storage.expandHome "/" "/keys") false = .ok ⟨"/keys/key", 1⟩ := rfl

theorem resolve_keyed (contents : List UInt8) :
    (keyed contents).files.resolve "/keys/key" = .ok (["keys", "key"], .file contents) := rfl

theorem differAt_keyed (contents contents' : List UInt8) :
    DifferAt ["keys", "key"] (keyed contents).files (keyed contents').files :=
  ⟨rfl, .cons (.inl rfl) (.cons (.inl rfl) (.cons (.inl rfl) (.cons (.inr ⟨contents, contents', rfl, rfl⟩) .nil)))⟩

theorem readKey_keyed (contents : List UInt8) : KeyStore.readKey (keyed contents).files "/keys/key" =
    (SigningKey.ofPem contents).mapError .parse := by
  have hread : (keyed contents).files.read "/keys/key" = .ok contents := rfl
  unfold KeyStore.readKey
  rw [hread]
  dsimp only
  cases SigningKey.ofPem contents <;> rfl

theorem ofPem_keyFile : SigningKey.ofPem keyFile = .ok ⟨1, by decide, by decide⟩ := by rfl

theorem ofPem_otherKeyFile : SigningKey.ofPem otherKeyFile = .ok ⟨2, by decide, by decide⟩ := by rfl

variable (network certPath : String)

theorem differ_query : (query network certPath keyFile).Differ (query network certPath otherKeyFile) := by
  have hk := readKey_keyed keyFile
  have hk' := readKey_keyed otherKeyFile
  rw [ofPem_keyFile] at hk
  rw [ofPem_otherKeyFile] at hk'
  exact .key _ (choose_keyed keyFile) (resolve_keyed keyFile) (differAt_keyed keyFile otherKeyFile) hk hk'

theorem blindPeer_query : (query network certPath keyFile).BlindPeer (query network certPath otherKeyFile) :=
  fun _ _ _ _ _ _ => ⟨Eq, Session.blind_of_deaf ⟨fun _ _ => rfl, fun _ _ => rfl, fun _ _ => rfl, fun _ _ => rfl⟩ rfl⟩

theorem sameCertificates_query : (query "c" "/cert" keyFile).SameCertificates (query "c" "/cert" otherKeyFile) := by
  rintro _ (rfl | rfl) <;> rfl

theorem after_keyFile : ((query "c" "/cert" keyFile).after {}).1 = .ok () := by decide +kernel

theorem after_otherKeyFile : ((query "c" "/cert" otherKeyFile).after {}).1 = .ok () := by decide +kernel

theorem no_secret_reported_answered : (query "c" "/cert" keyFile).Differ (query "c" "/cert" otherKeyFile) ∧
    ((query "c" "/cert" otherKeyFile).after {}).2.metrics = ((query "c" "/cert" keyFile).after {}).2.metrics := by
  obtain ⟨h, -⟩ := no_secret_reported (differ_query "c" "/cert") (fun _ => sameCertificates_query)
    (blindPeer_query "c" "/cert") {} (by rw [after_keyFile]; exact nofun) (by rw [after_otherKeyFile]; exact nofun)
  exact ⟨differ_query "c" "/cert", h⟩

def turnedDown (e : CallError) : Except Stop Unit × Trace :=
  (.error (.failed e), {
    metrics := [.call .read false, .duration .read, .failure e.kind]
    events := [.callFailed .read "f" "" "b" e] })

/-- It is not so that the contents of the key file make no difference, whatever else they are read for. -/
theorem key_file_not_always_secret : ¬ ∀ (b b' : BridgeCall) (t : Trace), b.Differ b' → b.BlindPeer b' →
    (b.after t).1 ≠ .error (.failed (.identity .signing)) → (b'.after t).1 ≠ .error (.failed (.identity .signing)) →
      (b'.after t).2.metrics = (b.after t).2.metrics := by
  intro hall
  -- without a network the call with a certificate comes as far as that
  have hkey : (query "" "/keys/key" keyFile).after {} = turnedDown (.parse .noCertificate) := by decide +kernel
  have hother : (query "" "/keys/key" otherKeyFile).after {} = turnedDown (.invalidInput .blankNetwork) := by
    decide +kernel
  have hsame := hall _ _ {} (differ_query "" "/keys/key") (blindPeer_query "" "/keys/key")
    (by rw [hkey]; exact nofun) (by rw [hother]; exact nofun)
  rw [hkey, hother] at hsame
  revert hsame
  decide

end BridgeCall
end LedgerClient

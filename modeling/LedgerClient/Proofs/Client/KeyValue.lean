import LedgerClient.Proofs.Client.FirstCertificate
import LedgerClient.Proofs.Client.PairLedger
/-!
# A map of bytes on a ledger

On a ledger that serves its contract, each operation of a client does to a map of bytes what its name says
(`step_returns`): the table goes on mirroring the map, and what is returned is what the map holds.  So any run of
operations does (`refines_map`).
-/
namespace LedgerClient

open Gateway (Fresh Session Write)

namespace KeyValue

/-! ## One step -/

section Step

variable {c : Client} {w : Surroundings} {fresh : Fresh}

/-- A client that passes its checks opens a session, and whatever it does ends as it does with the session. -/
theorem exists_session {α : Type} {function : String} {payload : Bytes} {op : Operation} {r : Run α}
    {k : Session → Run α}
    (hc : LocalCheck.firstError? w c.policy (.ofProfile c.profile function payload) = none)
    (hr : r = Run.observe (LocalCheck.ready w c.policy (.ofProfile c.profile function payload) >>= k)
      (Invocation.account op (.ofProfile c.profile function payload))) :
    ∃ s u, c.Opens w s ∧ s.isOpen = true ∧ u.calls = [] ∧ (Run.after {} r).1 = (Run.after u (k s)).1 ∧
      (Run.after {} r).2.calls = (Run.after u (k s)).2.calls := by
  obtain ⟨u, hu, ⟨e, he, _⟩ | ⟨_, s, hs, h⟩⟩ :=
    LocalCheck.ready_checks w c.policy (.ofProfile c.profile function payload) {}
  · rw [hc] at he
    cases he
  · obtain ⟨h₁, h₂⟩ := Invocation.after_ready hr h
    obtain ⟨_, _, hx⟩ | ⟨s', t, hopen, h'⟩ := Run.of_after_bind h
    · cases hx
    obtain ⟨_, _, hx⟩ | ⟨_, _, _, h''⟩ := Run.of_after_bind h'
    · cases hx
    cases h''
    exact ⟨s, u, ⟨{}, t, hopen⟩, hs, hu, h₁, h₂⟩

end Step

namespace Ledger

variable {L : Ledger} {c : Client} {σ : L.State} {fresh : Fresh}

theorem step_of_after {op : Op} {x : Except Stop Outcome} {t : Trace}
    (h : Run.after {} (op.run c (L.around σ) fresh) = (x, t)) : L.step c σ fresh op = (x, L.next σ t.calls) := by
  rw [step, h]

/-- **An operation that submits is done**, and the ledger has become what the transaction makes of it. -/
theorem submit_step (h : L.Serves c) {op : Op} {function : String} {arg : Bytes} {S' : Table}
    (hop : op.run c (L.around σ) fresh = c.submit (L.around σ) fresh function arg >>= fun _ => pure .done)
    (hch : Changes (L.table σ) function arg S')
    (hf : ∀ s, c.Opens (L.around σ) s → s.CanWrite (c.asking fresh function arg)) :
    ∃ σ', L.step c σ fresh op = (.ok .done, σ') ∧ L.table σ' = S' := by
  obtain ⟨s, u, hs, ho, hu, hx, hcalls⟩ := exists_session (h.checked σ function arg) (Invocation.write_eq fresh)
  have hruns := h.runs σ s hs
  rcases hrun : Run.after u (s.submitTransaction fresh c.profile.channelName c.profile.contractName function arg) with
    ⟨x, v⟩
  obtain ⟨r, tx, p, calls, rfl, hv, hasks, htransaction⟩ :=
    Session.submit_commits (w := c.asking fresh function arg) ho hruns.heard (hf s hs)
      (fun tx p => hruns.commits fresh function arg S' tx p hch) hrun
  rcases hw : Run.after {} ((Invocation.ofProfile c.profile function arg).write (L.around σ) c.policy fresh) with ⟨y, t⟩
  rw [hw] at hx hcalls
  have hy : y = .ok r := hx.trans (congrArg Prod.fst hrun)
  have ht : t.calls = calls := by
    have hsent : t.calls = v.calls := hcalls.trans (congrArg (fun z => z.2.calls) hrun)
    rw [hsent, hv, hu, List.nil_append]
  subst hy
  have hsubmit : Run.after {} (c.submit (L.around σ) fresh function arg) = (.ok (), t) := by
    unfold Client.submit
    rw [Run.after_bind_ok hw]
    rfl
  refine ⟨L.next σ t.calls, step_of_after ?_, ?_⟩
  · rw [hop, Run.after_bind_ok hsubmit]
    rfl
  · rw [ht]
    exact h.committed σ s fresh function arg S' tx p calls hs hch hasks htransaction

/-- **An operation that asks ends as it is answered**, by what `d` makes of the answer, and changes nothing. -/
theorem evaluate_step (h : L.Serves c) {op : Op} {function : String} {arg : Bytes}
    {d : Bytes → Except CallError Outcome}
    (hop : op.run c (L.around σ) fresh =
      c.evaluate (L.around σ) fresh function arg >>= fun raw => Run.ofExcept (d raw))
    (hf : ∀ s, c.Opens (L.around σ) s → s.CanAsk (c.asking fresh function arg)) :
    ∃ s tx p, c.Opens (L.around σ) s ∧ s.Asks (c.asking fresh function arg) tx p ∧
      ∀ r, (s.peer.evaluate ((c.asking fresh function arg).evaluation tx p)).answer = .ok r →
        ∃ σ', L.step c σ fresh op = (((Gateway.answered r).bind d).mapError .failed, σ') ∧ L.table σ' = L.table σ := by
  obtain ⟨s, u, hs, ho, hu, hx, hcalls⟩ := exists_session (h.checked σ function arg) (Invocation.read_eq fresh)
  rcases hrun : Run.after u (s.evaluateTransaction fresh c.profile.channelName c.profile.contractName function arg) with
    ⟨x, v⟩
  obtain ⟨tx, p, hasks, hanswer⟩ :=
    Session.evaluate_answered (w := c.asking fresh function arg) ho (h.runs σ s hs).heard (hf s hs) hrun
  refine ⟨s, tx, p, hs, hasks, fun r hr => ?_⟩
  obtain ⟨hxr, hv⟩ := hanswer r hr
  rcases hw : Run.after {} (c.evaluate (L.around σ) fresh function arg) with ⟨y, t⟩
  unfold Client.evaluate at hw
  rw [hw] at hx hcalls
  have hy : y = (Gateway.answered r).mapError .failed := hx.trans ((congrArg Prod.fst hrun).trans hxr)
  refine ⟨L.next σ t.calls, step_of_after ?_, h.untouched σ _ ?_⟩
  · rw [hop]
    unfold Client.evaluate
    rw [Run.after_bind, hw, hy]
    cases Gateway.answered r with
    | error e => rfl
    | ok raw => exact Run.after_ofExcept t (d raw)
  · have hsent : t.calls = v.calls := hcalls.trans (congrArg (fun z => z.2.calls) hrun)
    rw [hsent, hv, hu]
    rintro _ (_ | ⟨_, ⟨⟩⟩)
    exact nofun

variable {M : Memory}

theorem put_returns (h : L.Serves c) (hm : Mirrors (L.table σ) M) {pairs : List (Bytes × Bytes)}
    (hf : ∀ s, c.Opens (L.around σ) s → (Op.put pairs).Feasible c s fresh) :
    (Op.put pairs).Returns M (L.step c σ fresh (.put pairs)).1 ∧
      Mirrors (L.table (L.step c σ fresh (.put pairs)).2) (overlay M pairs) := by
  have hoverlay : overlay M (ByteMap.ofPairs pairs) = overlay M pairs := overlay_ofPairs strictOrder_lt M pairs
  have hbatch : Mirrors (overlay (L.table σ) ((ByteMap.ofPairs pairs).map hexPair)) (overlay M pairs) := by
    rw [← hoverlay]
    exact hm.overlay _
  by_cases he : ByteMap.ofPairs pairs = []
  · -- nothing is asked for, so nothing happens
    have hstep : L.step c σ fresh (.put pairs) = (.ok .done, L.next σ []) := by
      refine step_of_after (t := {}) ?_
      rw [Op.run, Client.put, he]
      rfl
    rw [he] at hbatch
    rw [hstep, h.untouched σ [] nofun]
    exact ⟨rfl, hbatch⟩
  · have hrun : (Op.put pairs).run c (L.around σ) fresh =
        c.submit (L.around σ) fresh "put" (encodeBatch (ByteMap.ofPairs pairs)) >>= fun _ => pure .done := by
      rw [Op.run, Client.put, if_neg (by simpa using he)]
    obtain ⟨σ', hstep, htable⟩ := submit_step h hrun (.put (isObject_encodeBatch (ofPairs_sorted pairs))) fun s hs => hf s hs he
    rw [hstep, htable]
    exact ⟨rfl, hbatch⟩

theorem remove_returns (h : L.Serves c) (hm : Mirrors (L.table σ) M) {key : Bytes}
    (hf : ∀ s, c.Opens (L.around σ) s → (Op.remove key).Feasible c s fresh) :
    (Op.remove key).Returns M (L.step c σ fresh (.remove key)).1 ∧
      Mirrors (L.table (L.step c σ fresh (.remove key)).2) (erase M key) := by
  have hrun : (Op.remove key).run c (L.around σ) fresh =
      c.submit (L.around σ) fresh "delete" (utf8 (hex key)) >>= fun _ => pure .done := by
    rw [Op.run, Client.remove, utf8_hex]
  obtain ⟨σ', hstep, htable⟩ := submit_step h hrun .delete hf
  rw [hstep, htable]
  exact ⟨rfl, hm.erase key⟩

theorem get_returns (h : L.Serves c) (hm : Mirrors (L.table σ) M) {key : Bytes}
    (hf : ∀ s, c.Opens (L.around σ) s → (Op.get key).Feasible c s fresh) :
    (Op.get key).Returns M (L.step c σ fresh (.get key)).1 ∧
      L.table (L.step c σ fresh (.get key)).2 = L.table σ := by
  have hrun : (Op.get key).run c (L.around σ) fresh = c.evaluate (L.around σ) fresh "get" (utf8 (hex key)) >>=
      fun raw => Run.ofExcept (((decodeValue raw).mapError .parse).map .value) := by
    simp only [Op.run, Client.get, utf8_hex, bind_assoc, Run.ofExcept_map]
  obtain ⟨s, tx, p, hs, hasks, hx⟩ := evaluate_step h hrun hf
  obtain ⟨r, hr, a, ha, hfind⟩ := (h.runs σ s hs).get fresh (hex key) tx p hasks
  obtain ⟨σ', hstep, htable⟩ := hx r hr
  rw [hstep, Gateway.answered, ha]
  refine ⟨?_, htable⟩
  dsimp only
  rw [hm.at_hex] at hfind
  cases hk : M key with
  | some v =>
    rw [hk] at hfind
    obtain ⟨hstatus, hpayload⟩ := hfind
    rw [if_neg (by simpa using hstatus), hpayload, Except.bind, decodeValue_hex, Op.Returns, hk]
    rfl
  | none =>
    rw [hk] at hfind
    rw [if_pos (show Session.peerErrorThreshold ≤ a.status from hfind), Op.Returns, hk]
    exact ⟨_, rfl⟩

theorem getAll_returns (h : L.Serves c) (hm : Mirrors (L.table σ) M)
    (hf : ∀ s, c.Opens (L.around σ) s → Op.getAll.Feasible c s fresh) :
    Op.getAll.Returns M (L.step c σ fresh .getAll).1 ∧ L.table (L.step c σ fresh .getAll).2 = L.table σ := by
  have hrun : Op.getAll.run c (L.around σ) fresh = c.evaluate (L.around σ) fresh "getAll" (encodeBatch []) >>=
      fun raw => Run.ofExcept (((decodeMap raw).mapError .parse).map .all) := by
    simp only [Op.run, Client.getAll, bind_assoc, Run.ofExcept_map]
  obtain ⟨s, tx, p, hs, hasks, hx⟩ := evaluate_step h hrun hf
  obtain ⟨r, hr, a, ps, ha, hstatus, ho, hn, hps⟩ :=
    (h.runs σ s hs).getAll fresh (encodeBatch []) tx p (isObject_encodeBatch .nil) hasks
  obtain ⟨m, hdecode, hholds⟩ := hm.decodeMap ho hn hps
  obtain ⟨σ', hstep, htable⟩ := hx r hr
  rw [hstep, Gateway.answered, ha]
  dsimp only
  rw [if_neg (by simpa using hstatus), Except.bind, hdecode]
  exact ⟨⟨m, rfl, hholds⟩, htable⟩

/-- **Every operation returns what it is to return of the map, and leaves the table mirroring what it makes of it.** -/
theorem step_returns (h : L.Serves c) (hm : Mirrors (L.table σ) M) (op : Op)
    (hf : ∀ s, c.Opens (L.around σ) s → op.Feasible c s fresh) :
    op.Returns M (L.step c σ fresh op).1 ∧ Mirrors (L.table (L.step c σ fresh op).2) (op.apply M) := by
  cases op with
  | put pairs => exact put_returns h hm hf
  | remove key => exact remove_returns h hm hf
  | get key =>
    obtain ⟨hr, ht⟩ := get_returns h hm hf
    rw [ht]
    exact ⟨hr, hm⟩
  | getAll =>
    obtain ⟨hr, ht⟩ := getAll_returns h hm hf
    rw [ht]
    exact ⟨hr, hm⟩

theorem run_returns (h : L.Serves c) (steps : List (Fresh × Op)) (hm : Mirrors (L.table σ) M)
    (hf : L.Feasible c σ steps) : Return M (steps.map Prod.snd) (L.run c σ steps) := by
  induction steps generalizing σ M with
  | nil => exact .nil
  | cons step r ih =>
    obtain ⟨fresh, op⟩ := step
    obtain ⟨hop, hr⟩ := hf
    obtain ⟨hreturns, hmirrors⟩ := step_returns h hm op hop
    exact .cons hreturns (ih hmirrors hr)

/-- **A client of a ledger is a map of bytes.**  From the empty table on, whatever is put, removed and asked for, in
any number of operations, puts and removals succeed, a key is found with its value or not at all, and all pairs are
those of the map. -/
theorem refines_map (L : Ledger) (c : Client) (h : L.Serves c) (σ : L.State) (hempty : ∀ key, L.table σ key = none)
    (steps : List (Fresh × Op)) (hf : L.Feasible c σ steps) :
    Return (fun _ => none) (steps.map Prod.snd) (L.run c σ steps) := by
  have htable : L.table σ = fun _ => none := funext hempty
  refine run_returns h steps ?_ hf
  rw [htable]
  exact mirrors_empty

end Ledger

/-! A ledger of pairs, and a client of it that puts a value under the key without bytes and gets it back. -/

namespace Sample

open Invocation (smallSection surroundings)

def files : Surroundings := surroundings smallSection.text

def client : Client where
  profile :=
    { channelName := "c", contractName := "b", certPath := "/cert", keyPath := "/keys", tlsCertPath := "/anchor"
      gatewayPeer := "localhost" }

def ledger : Ledger := PairLedger.ledger files

def steps : List (Fresh × Op) := [(⟨[1], {}⟩, .put [([], [0xFF])]), (⟨[2], {}⟩, .get [])]

theorem serves : ledger.Serves client := by
  refine PairLedger.serves ?_ fun p => ?_
  · rw [← Option.isNone_iff_eq_none]
    decide +kernel
  · cases p <;> decide

def key : P256.PrivateKey := ⟨1, by decide, by decide⟩

/-- The session that the client opens. -/
def session (ps : PairLedger.Pairs) : Session where
  identity := Session.stalled.identity
  signer _ d := SigningKey.sign key d
  peer := PairLedger.peer ps
  timeouts := {}
  link := .network

theorem identity_eq (ps : PairLedger.Pairs) :
    Invocation.identity (ledger.around ps) (.ofProfile client.profile "" []) = .ok Session.stalled.identity := by
  have hread : files.files.read (Storage.expandHome "/" "/cert") = .ok smallSection.text := rfl
  have hpem : Certificate.ofPem smallSection.text = .ok Session.stalled.identity.certificate := by
    have hfirst : Certificate.firstOf (Pem.read smallSection.text) = .ok Session.smallCertificate := rfl
    rw [Certificate.ofPem, hfirst]
    exact Certificate.ofDer_names Session.smallCertificate_names
  have hload : Certificate.load files.files "/" "/cert" = .ok Session.stalled.identity.certificate := by
    rw [Certificate.load_eq_ofPem hread, hpem]
    rfl
  show (Certificate.load files.files "/" "/cert").bind (Identity.make "Org1MSP") = _
  rw [hload]
  rfl

theorem key_eq (ps : PairLedger.Pairs) (t : Trace) :
    (Run.after t (Invocation.key (ledger.around ps) client.policy (.ofProfile client.profile "" []))).1 = .ok key := by
  have hcall : Invocation.key (ledger.around ps) client.policy (.ofProfile client.profile "" []) =
    Invocation.key files {} Invocation.call := rfl
  have hread : KeyStore.readKey (surroundings []).files "/keys/key" = .ok key := rfl
  rw [hcall, files, Invocation.key_surroundings, hread]
  rfl

theorem opens {ps : PairLedger.Pairs} {s : Session} (h : client.Opens (ledger.around ps) s) : s = session ps := by
  obtain ⟨t, u, h⟩ := h
  obtain ⟨τ, d, k, t₁, _, _, hd, hk, rfl⟩ := Invocation.openSession_ok h
  have hd' := (identity_eq ps).symm.trans hd
  have hk' := (key_eq ps t₁).symm.trans (congrArg Prod.fst hk)
  cases hd'
  cases hk'
  rfl

theorem signs {ps : PairLedger.Pairs} {message : Bytes}
    (h : (SigningKey.sign key (sha256 message)).toBool = true) : (session ps).Signs message := by
  intro n
  cases hs : SigningKey.sign key (sha256 message) with
  | ok σ => exact ⟨σ, hs⟩
  | error e =>
    rw [hs] at h
    cases h

/-- What is written down does not depend on the pairs. -/
theorem canAsk (ps : PairLedger.Pairs) {w : Write} (hf : ((session []).proposal w).bytes.length < UInt64.size)
    (hs : (SigningKey.sign key (sha256 ((session []).proposal w).bytes)).toBool = true) : (session ps).CanAsk w :=
  ⟨hf, signs hs⟩

/-- An endorsed envelope has the bytes of the proposal to be signed. -/
theorem canWrite {ps : PairLedger.Pairs} {w : Write} (h : (session ps).CanAsk w)
    (hs : (SigningKey.sign key (sha256 (Wire.encode ((session []).statusRequest w)))).toBool = true) :
    (session ps).CanWrite w where
  toCanAsk := h
  signs_envelope σ r e hr he := by
    have hpeer : (session ps).peer = PairLedger.peer ps := rfl
    simp only [Session.endorsing, hpeer, PairLedger.peer, Option.map_some, Gateway.Answer.ok.injEq] at hr
    rw [← hr, Option.some.injEq] at he
    rw [← he]
    dsimp only
    exact h.signs
  signs_status := signs hs

theorem canAsk_get (ps : PairLedger.Pairs) : (session ps).CanAsk (client.asking ⟨[2], {}⟩ "get" []) :=
  canAsk ps (by decide +kernel) (by decide +kernel)

theorem feasible : ledger.Feasible client [] steps := by
  refine ⟨fun s hs _ => ?_, fun s hs => ?_, trivial⟩
  · rw [opens hs]
    exact canWrite (canAsk _ (by decide +kernel) (by decide +kernel)) (by decide +kernel)
  · rw [opens hs]
    exact canAsk_get _

end Sample

open Sample in
theorem Ledger.refines_map_sample :
    ledger.Serves client ∧ (∀ key, ledger.table [] key = none) ∧ ledger.Feasible client [] steps ∧
      ledger.run client [] steps = [.ok .done, .ok (.value [0xFF])] := by
  refine ⟨serves, fun _ => rfl, feasible, ?_⟩
  have h := Ledger.refines_map ledger client serves [] (fun _ => rfl) steps feasible
  generalize ledger.run client [] steps = xs at h ⊢
  cases h with
  | cons hput hr =>
    cases hr with
    | cons hget hnil =>
      cases hnil
      cases hput
      cases hget
      rfl

end KeyValue
end LedgerClient

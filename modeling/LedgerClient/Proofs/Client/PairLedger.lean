import LedgerClient.Proofs.Client.Ledger
import LedgerClient.Proofs.Client.Opening
/-!
# A ledger of pairs

A contract can keep its table as pairs, of which later ones count, and a peer that endorses whatever it is asked for
can run it.  Such a ledger serves every client that passes its local checks (`serves`).
-/
namespace LedgerClient.KeyValue.PairLedger

open Gateway (Call Layers Peer Session Write)
open Message (Response SignedProposal)

abbrev Pairs := List (String × String)

/-! ## The contract -/

/-- The function and the arguments that a proposal asks for. -/
def asked (p : Option SignedProposal) : List Bytes :=
  ((p.bind fun p => Layers.read? p.proposalBytes).bind fun l => l.invocation.chaincodeSpec.bind fun s =>
    s.input.map fun i => i.args).getD []

/-- The key that an argument names. -/
def named (arg : Bytes) : String :=
  match Utf8.decode arg with
  | .ok cs => String.ofList cs
  | .error _ => ""

/-- The pairs after a transaction. -/
def changed (ps : Pairs) : List Bytes → Pairs
  | [function, arg] =>
    if function = utf8 "put" then
      match Json.readTexts arg with
      | .ok qs => ps ++ qs
      | .error _ => ps
    else ps.filter fun p => p.1 ≠ named arg
  | _ => ps

/-- The object of the pairs that count. -/
def written (ps : Pairs) : Bytes :=
  Utf8.encode (Json.writeCompact ((ofPairs (fun a b => decide (a < b)) ps).map fun p => (p.1.toList, p.2.toList)))

/-- The answer to a query. -/
def answer (ps : Pairs) : List Bytes → Response
  | [function, arg] =>
    if function = utf8 "get" then
      match mapOf ps (named arg) with
      | some value => { status := 200, payload := utf8 value }
      | none => { status := 404 }
    else { status := 200, payload := written ps }
  | _ => { status := 400 }

def peer (ps : Pairs) : Peer where
  endorse q := { answer := .ok { preparedTransaction := q.proposedTransaction.map fun p => ⟨p.proposalBytes, []⟩ } }
  submit _ := { answer := .ok {} }
  commitStatus _ := { answer := .ok { result := Session.valid } }
  evaluate q := { answer := .ok { result := some (answer ps (asked q.proposedTransaction)) } }

/-- The pairs after the calls of an operation, which change them if they are those of a whole transaction. -/
def after (ps : Pairs) : List Call → Pairs
  | [⟨.endorse q, _, _⟩, ⟨.submit _, _, _⟩, ⟨.commitStatus _, _, _⟩] => changed ps (asked q.proposedTransaction)
  | _ => ps

/-- The ledger of pairs, among the files there are. -/
def ledger (w : Surroundings) : Ledger where
  State := Pairs
  around ps := { w with reach := fun _ => peer ps }
  next := after
  table := mapOf

/-! ## What it makes of a transaction -/

theorem asked_eq {s : Session} {w : Write} {tx : String} {p : SignedProposal} (h : s.Asks w tx p) :
    asked (some p) = [utf8 w.function, w.payload] := by
  obtain ⟨l, hl, hs⟩ := h.reads
  unfold asked
  rw [Option.bind_some, hl, Option.bind_some, hs.invocation]
  rfl

theorem named_utf8 (key : String) : named (utf8 key) = key := by
  unfold named utf8
  rw [Utf8.decode_encode]
  exact String.ofList_toList

theorem mapOf_filter (ps : Pairs) (key : String) : mapOf (ps.filter fun p => p.1 ≠ key) = erase (mapOf ps) key := by
  funext a
  unfold erase
  induction ps with
  | nil => exact (ite_self none).symm
  | cons p ps ih =>
    rw [List.filter_cons]
    by_cases hp : p.1 = key
    · rw [if_neg (by simpa using hp), ih, mapOf_cons, hp]
      split
      · rfl
      · exact Option.or_none.symm
    · rw [if_pos (by simpa using hp), mapOf_cons, mapOf_cons, ih]
      split
      · rename_i ha
        rw [ha, if_neg (Ne.symm hp)]
        rfl
      · rfl

/-- **The pairs change as the table does.** -/
theorem mapOf_changed {ps : Pairs} {function : String} {arg : Bytes} {S : Table}
    (h : Changes (mapOf ps) function arg S) : mapOf (changed ps [utf8 function, arg]) = S := by
  cases h with
  | put ho =>
    rw [changed, if_pos rfl, ho.readTexts_eq]
    exact List.foldl_append
  | @delete key =>
    rw [changed, if_neg (by decide), named_utf8]
    exact mapOf_filter ps key

theorem after_eq (ps : Pairs) {calls : List Call} (h : ∀ c ∈ calls, c.request.phase ≠ .submit) :
    after ps calls = ps := by
  unfold after
  split
  · exact absurd rfl (h _ (.tail _ (.head _)))
  · rfl

/-! ## What it answers -/

theorem isObject_written (ps : Pairs) : Json.IsObject (written ps) (ofPairs (fun a b => decide (a < b)) ps) := by
  have h := Json.isObject_writeCompact
    ((ofPairs (fun a b => decide (a < b)) ps).map fun p => (p.1.toList, p.2.toList))
  rw [List.map_map] at h
  have hpair : Json.textPair ∘ (fun p : String × String => (p.1.toList, p.2.toList)) = id := by
    funext p
    simp [Json.textPair]
  rwa [hpair, List.map_id] at h

theorem status_ok : (200 : Int32) < Session.peerErrorThreshold := by decide

theorem finds (ps : Pairs) (key : String) : Finds (mapOf ps) key ⟨some (answer ps [utf8 "get", utf8 key])⟩ := by
  refine ⟨_, rfl, ?_⟩
  rw [answer, if_pos rfl, named_utf8]
  cases mapOf ps key with
  | some value => exact ⟨status_ok, rfl⟩
  | none => exact (by decide : Session.peerErrorThreshold ≤ 404)

theorem showsAll (ps : Pairs) (arg : Bytes) : ShowsAll (mapOf ps) ⟨some (answer ps [utf8 "getAll", arg])⟩ := by
  have h := holds_ofPairs strictOrder_text ps
  have ha : answer ps [utf8 "getAll", arg] = { status := 200, payload := written ps } := by
    rw [answer, if_neg (by decide)]
  rw [ha]
  exact ⟨_, _, rfl, status_ok, isObject_written ps, h.nodup strictOrder_text, h.mem_iff⟩

/-! ## It serves -/

/-- No phase is given more time than can be written down. -/
def Timely (t : Config.Timeouts) : Prop := ∀ p, t.phase p < Gateway.networkLimit

variable {w : Surroundings} {c : Client} {s : Session} {ps : Pairs}

theorem runs (hp : s.peer = peer ps) (ht : Timely s.timeouts) : Runs c s (mapOf ps) where
  heard q := by
    refine ⟨fun _ => ht q.phase, ?_⟩
    rw [hp]
    cases q <;> exact Nat.zero_le _
  get fresh key tx p h := by
    have ha : asked (some p) = [utf8 "get", utf8 key] := asked_eq h
    rw [hp]
    exact ⟨_, rfl, ha ▸ finds ps key⟩
  getAll fresh arg tx p _ h := by
    have ha : asked (some p) = [utf8 "getAll", arg] := asked_eq h
    rw [hp]
    exact ⟨_, rfl, ha ▸ showsAll ps arg⟩
  commits fresh function arg S tx p _ _ := by
    refine ⟨⟨p.proposalBytes, []⟩, ?_, fun q₂ _ => ?_, fun q₃ _ => ?_⟩
    · rw [Session.Endorses, hp]
      exact ⟨_, rfl, rfl⟩
    · rw [hp]
      exact ⟨_, rfl⟩
    · rw [Session.SaysValid, hp]
      exact ⟨_, rfl, rfl⟩

/-- Neither the peer nor what is asked of it is checked. -/
theorem firstError?_reach (w : Surroundings) (reach : Network.Transport → Peer) (p : Policy) (profile : Config.Profile)
    (function : String) (payload : Bytes) :
    LocalCheck.firstError? { w with reach } p (.ofProfile profile function payload) =
      LocalCheck.firstError? w p (.ofProfile profile "" []) := by
  refine congrArg (LocalCheck.all.findSome? ·) (funext fun c => ?_)
  cases c <;> rfl

/-- **A ledger of pairs serves every client** that passes its local checks, with deadlines that can be written down. -/
theorem serves (hc : LocalCheck.firstError? w c.policy (.ofProfile c.profile "" []) = none)
    (ht : Timely c.policy.timeouts) : (ledger w).Serves c where
  checked ps function payload := (firstError?_reach w (fun _ => peer ps) _ _ function payload).trans hc
  runs ps s := by
    rintro ⟨t, u, h⟩
    obtain ⟨τ, d, k, _, _, _, _, _, rfl⟩ := Invocation.openSession_ok h
    exact runs rfl ht
  committed ps s fresh function arg S tx p calls _ hch hasks h := by
    cases h
    exact (congrArg (fun l => mapOf (changed ps l)) (asked_eq hasks)).trans (mapOf_changed hch)
  untouched ps calls h := congrArg mapOf (after_eq ps h)

end LedgerClient.KeyValue.PairLedger

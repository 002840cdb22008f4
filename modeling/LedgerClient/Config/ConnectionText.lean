import LedgerClient.Config.Profile
import LedgerClient.Document.Json.Reader
/-!
# Connection strings

A profile as one JSON document: an object with the eight fields by name, in which other keys may
stand, or a list of the eight fields in order.  The contract may be left out or `null`.
-/
namespace LedgerClient.Config

open Json (Fault Reading)

/-- The fields read so far; `some none` is a contract given as `null`. -/
structure Draft where
  channelName : Option String := none
  contractName : Option (Option String) := none
  mspId : Option String := none
  certPath : Option String := none
  keyPath : Option String := none
  tlsCertPath : Option String := none
  peerEndpoint : Option String := none
  gatewayPeer : Option String := none

def need (o : Option String) (name : String) : Except Fault String :=
  match o with
  | some s => .ok s
  | none => .error (.missingField name)

/-- The profile, or the first field that is missing. -/
def Draft.finish (d : Draft) : Except Fault Profile := do
  let channelName ← need d.channelName "channel_name"
  let contractName := d.contractName.join.getD ({} : Profile).contractName
  let mspId ← need d.mspId "msp_id"
  let certPath ← need d.certPath "cert_path"
  let keyPath ← need d.keyPath "key_path"
  let tlsCertPath ← need d.tlsCertPath "tls_cert_path"
  let peerEndpoint ← need d.peerEndpoint "peer_endpoint"
  let gatewayPeer ← need d.gatewayPeer "gateway_peer"
  .ok ⟨channelName, contractName, mspId, certPath, keyPath, tlsCertPath, peerEndpoint,
    gatewayPeer⟩

/-! ## Objects -/

/-- Reads the value of the field `name`, which must not have been read before. -/
def once {α : Type} (name : String) (seen : Bool)
    (value : List UInt8 → Reading α) (s : List UInt8) : Except Fault (α × List UInt8) := do
  if seen then .error (.duplicateField name)
  let r ← Json.dropColon s
  value r

/-- One member; `s` starts after its key. -/
def Draft.member (d : Draft) (key : String) (s : List UInt8) :
    Except Fault (Draft × List UInt8) := do
  let text (o : Option String) (put : String → Draft) : Except Fault (Draft × List UInt8) := do
    let (v, r) ← once key o.isSome Json.readText s
    .ok (put v, r)
  match key with
  | "channel_name" => text d.channelName fun v => { d with channelName := some v }
  | "contract_name" =>
    let (v, r) ← once key d.contractName.isSome Json.readOptionalText s
    .ok ({ d with contractName := some v }, r)
  | "msp_id" => text d.mspId fun v => { d with mspId := some v }
  | "cert_path" => text d.certPath fun v => { d with certPath := some v }
  | "key_path" => text d.keyPath fun v => { d with keyPath := some v }
  | "tls_cert_path" => text d.tlsCertPath fun v => { d with tlsCertPath := some v }
  | "peer_endpoint" => text d.peerEndpoint fun v => { d with peerEndpoint := some v }
  | "gateway_peer" => text d.gatewayPeer fun v => { d with gatewayPeer := some v }
  | _ =>
    let r ← Json.dropColon s
    let r ← Json.skipValue r
    .ok (d, r)

/-! ## Lists -/

/-- The element at index `i`; a list that ends before it has the length `i`. -/
def element {α : Type} (i : Nat) (value : List UInt8 → Reading α) (s : List UInt8) :
    Except Fault (α × List UInt8) := do
  match ← Json.nextElement (i = 0) s with
  | .item r => value r
  | .close _ => .error (.wrongLength i "struct ConnectionString with 8 elements")

/-- The contract, at index 1; a list that ends before it leaves it out. -/
def contractElement (s : List UInt8) : Except Fault (Option String × List UInt8) := do
  match ← Json.nextElement false s with
  | .item r => Json.readOptionalText r
  | .close _ => .ok (none, s)

def elements (s : List UInt8) : Except Fault (Profile × List UInt8) := do
  let (channelName, s) ← element 0 Json.readText s
  let (contractName, s) ← contractElement s
  let (mspId, s) ← element 2 Json.readText s
  let (certPath, s) ← element 3 Json.readText s
  let (keyPath, s) ← element 4 Json.readText s
  let (tlsCertPath, s) ← element 5 Json.readText s
  let (peerEndpoint, s) ← element 6 Json.readText s
  let (gatewayPeer, s) ← element 7 Json.readText s
  let s ← Json.endList s
  .ok (⟨channelName, contractName.getD ({} : Profile).contractName, mspId, certPath, keyPath,
    tlsCertPath, peerEndpoint, gatewayPeer⟩, s)

/-! ## Documents -/

def ofObject (s : List UInt8) : Except Fault (Profile × List UInt8) := do
  let (d, r) ← Json.members Draft.member (s.length + 1) true {} s
  let p ← d.finish
  .ok (p, r)

def readProfile (s : List UInt8) : Except Fault Profile :=
  Json.finish (match Json.dropBlanks s with
    | [] => .error .endInValue
    | b :: r =>
      if b = Json.openObject then ofObject r
      else if b = Json.openList then elements r
      else .error (Json.refuse "struct ConnectionString" (b :: r)))

def Profile.ofText (text : String) : Except Fault Profile := readProfile (utf8 text)

end LedgerClient.Config

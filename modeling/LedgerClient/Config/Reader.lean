import LedgerClient.Config.Validation
import LedgerClient.Document.Toml.Reader
import LedgerClient.Storage.FileTree
/-!
# Configuration files

A configuration is a TOML document whose tables set some fields and leave the others as they are.
Keys nobody knows are passed over.  The first value of a wrong kind is reported, in the order of
the document.
-/
namespace LedgerClient.Config

open Document (Found)
open Toml (Value)

/-- A value that does not fit its field. -/
inductive Misfit where
  | wrongKind (found : Found) (wanted : String)
  | negative (n : Int)
deriving DecidableEq, Repr

def Misfit.message : Misfit → String
  | .wrongKind f w => Document.wrongKind f w
  | .negative n => s!"invalid value: integer `{n}`, expected u64"

/-! ## Values of fields -/

def readText : Value → Except Misfit String
  | .text s => .ok s
  | v => .error (.wrongKind v.found "a string")

def readSeconds : Value → Except Misfit Nat
  | .integer n => if 0 ≤ n then .ok n.toNat else .error (.negative n)
  | v => .error (.wrongKind v.found "u64")

def readSwitch : Value → Except Misfit Bool
  | .boolean b => .ok b
  | v => .error (.wrongKind v.found "a boolean")

/-! ## Tables of fields -/

structure Field (α : Type) where
  name : String
  put : Value → α → Except Misfit α

def Field.of {α β : Type} (name : String) (read : Value → Except Misfit β) (set : β → α → α) :
    Field α :=
  ⟨name, fun v a => (read v).map (set · a)⟩

def putItem {α : Type} (fs : List (Field α)) (a : α) (item : String × Value) :
    Except Misfit α :=
  match fs.find? (·.name = item.1) with
  | some f => f.put item.2 a
  | none => .ok a

/-- A table gives its fields by name and a list by position; a date counts as a table without
any. -/
def readFields {α : Type} (wanted : String) (fs : List (Field α)) (v : Value) (a : α) :
    Except Misfit α :=
  match v with
  | .table _ items => items.foldlM (putItem fs) a
  | .list _ vs => (fs.zip vs).foldlM (fun a (f, v) => f.put v a) a
  | .moment => .ok a
  | v => .error (.wrongKind v.found wanted)

def Profile.schema : List (Field Profile) :=
  [.of "channel_name" readText fun v p => { p with channelName := v },
    .of "contract_name" readText fun v p => { p with contractName := v },
    .of "msp_id" readText fun v p => { p with mspId := v },
    .of "cert_path" readText fun v p => { p with certPath := v },
    .of "key_path" readText fun v p => { p with keyPath := v },
    .of "tls_cert_path" readText fun v p => { p with tlsCertPath := v },
    .of "peer_endpoint" readText fun v p => { p with peerEndpoint := v },
    .of "gateway_peer" readText fun v p => { p with gatewayPeer := v }]

def Timeouts.schema : List (Field Timeouts) :=
  [.of "evaluate_secs" readSeconds fun v t => { t with evaluate := v },
    .of "endorse_secs" readSeconds fun v t => { t with endorse := v },
    .of "submit_secs" readSeconds fun v t => { t with submit := v },
    .of "commit_status_secs" readSeconds fun v t => { t with commitStatus := v },
    .of "connect_secs" readSeconds fun v t => { t with connect := v }]

def Keys.schema : List (Field Keys) := [.of "strict" readSwitch fun v k => { k with strict := v }]

def Observability.schema : List (Field Observability) :=
  [.of "log_level" readText fun v o => { o with logLevel := v }]

/-- The fields that a table leaves out have their defaults, not those of an earlier table. -/
def Settings.schema : List (Field Settings) :=
  [.of "connection" (readFields "struct ConnectionProfile" Profile.schema · {})
      fun v s => { s with connection := v },
    .of "timeouts" (readFields "struct GatewayTimeouts" Timeouts.schema · {})
      fun v s => { s with timeouts := v },
    .of "keys" (readFields "struct KeyConfig" Keys.schema · {})
      fun v s => { s with keys := v },
    .of "observability" (readFields "struct ObservabilityConfig" Observability.schema · {})
      fun v s => { s with observability := v }]

def Settings.ofItems (items : Toml.Items) : Except Misfit Settings :=
  items.foldlM (putItem Settings.schema) {}

/-! ## Files -/

inductive LoadError where
  | io (c : IoCause)
  | notToml
  | misfit (m : Misfit)
  | problems (ps : List Problem)
deriving DecidableEq, Repr

/-- The text of an error whose place in the document is not told. -/
def LoadError.message : LoadError → String
  | .io c => s!"IO error: {c.message}"
  | .notToml => "Parse error: TOML parse error"
  | .misfit m => s!"Parse error: {m.message}"
  | .problems ps =>
    let inner := ", ".intercalate (ps.map Problem.describe)
    s!"Validation failed: {inner}"

/-- The settings in a text, whether they can be used or not. -/
def Settings.read (text : String) : Except LoadError Settings :=
  match Toml.document text.toList with
  | none => .error .notToml
  | some items => match ofItems items with
    | .error m => .error (.misfit m)
    | .ok s => .ok s

def Settings.parse (text : String) : Except LoadError Settings :=
  match read text with
  | .error e => .error e
  | .ok s => match s.validate with
    | .error ps => .error (.problems ps)
    | .ok () => .ok s

def Settings.load (files : Storage.FileTree) (path : String) : Except LoadError Settings :=
  match files.readText path with
  | .error c => .error (.io c)
  | .ok text => parse text

end LedgerClient.Config

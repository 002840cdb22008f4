import LedgerClient.Client.KeyValue
import LedgerClient.CommandLine.Arguments
import LedgerClient.Config.ConnectionText
import LedgerClient.Config.Reader
/-!
# Carrying out a command

The settings come from a file, or are the defaults if there is none; a connection string takes the
place of their connection.  One call is made, and its result printed.
-/
namespace LedgerClient.CommandLine

open Config (LoadError Settings)
open Gateway (Fresh)

/-- Why a command did not succeed. -/
inductive Failure where
  | load (e : LoadError)
  | call (e : CallError)

def loadName : LoadError → String
  | .io _ => "Io"
  | .notToml => "Parse"
  | .misfit _ => "Parse"
  | .problems _ => "Validation"

def callName : CallError → String
  | .io .. => "Io"
  | .parse _ => "Parse"
  | .noKeyFound _ => "NoKeyFound"
  | .ambiguousKey .. => "AmbiguousKey"
  | .connection _ => "Connection"
  | .identity _ => "Identity"
  | .timeout .. => "Timeout"
  | .remote .. => "Remote"
  | .invalidInput _ => "InvalidInput"

def Failure.name : Failure → String
  | .load e => loadName e
  | .call e => callName e

/-! ## Settings -/

def defaultConfig : String := "ledger-bridge.toml"

def fileSettings (files : Storage.FileTree) (o : Options) : Except Failure Settings :=
  let path := o.config.getD defaultConfig
  if files.exists? path then (Settings.load files path).mapError .load else .ok {}

/-- A connection string is not checked any further. -/
def withConnection (o : Options) (s : Settings) : Except Failure Settings :=
  match o.connection with
  | none => .ok s
  | some text => match Config.Profile.ofText text with
    | .error f => .error (.call (.invalidInput (.connectionString f)))
    | .ok p => .ok { s with connection := p }

def settings (files : Storage.FileTree) (o : Options) : Except Failure Settings :=
  match fileSettings files o with
  | .error e => .error e
  | .ok s => withConnection o s

/-! ## Output -/

def shown (hexDigits : Bool) (bs : List UInt8) : List Char :=
  if hexDigits then Hex.encode bs else Utf8.decodeLossy bs

/-- The pairs in the order of their printed keys; of keys that print alike the last counts. -/
def showMap (hexDigits : Bool) (m : KeyValue.ByteMap) : List Char :=
  let pairs := m.map fun (k, v) => (shown hexDigits k, shown hexDigits v)
  Json.writeIndented (KeyValue.ofPairs (fun a b => decide (a < b)) pairs)

def line (s : List Char) : String := String.ofList (s ++ ['\n'])

/-! ## Commands -/

def perform (w : Surroundings) (fresh : Fresh) (s : Settings) (hexDigits : Bool) :
    Command → Run String
  | .submit f p => do
    let policy := ⟨s.timeouts, s.keys.strict⟩
    let c ← (Invocation.ofProfile s.connection f (utf8 p)).write w policy fresh
    pure s!"{c.transactionId} committed in block {c.blockNumber}\n"
  | .evaluate f p => do
    let policy := ⟨s.timeouts, s.keys.strict⟩
    let bs ← (Invocation.ofProfile s.connection f (utf8 p)).read w policy fresh
    pure (line (shown hexDigits bs))
  | .put k v => do
    (KeyValue.Client.ofSettings s).put w fresh [(utf8 k, utf8 v)]
    pure ""
  | .get k => do
    let bs ← (KeyValue.Client.ofSettings s).get w fresh (utf8 k)
    pure (line (shown hexDigits bs))
  | .getAll => do
    let m ← (KeyValue.Client.ofSettings s).getAll w fresh
    pure (line (showMap hexDigits m))
  | .remove k => do
    (KeyValue.Client.ofSettings s).remove w fresh (utf8 k)
    pure ""

/-- How a command ended. -/
inductive Outcome where
  | printed (text : String)
  | failed (f : Failure)
  | help
  | usage
  | panicked

def Outcome.exit : Outcome → Nat
  | .printed _ => 0
  | .failed _ => 1
  | .help => 0
  | .usage => 2
  | .panicked => 101

def execute (w : Surroundings) (fresh : Fresh) (args : List String) (t : Trace) :
    Outcome × Trace :=
  match parse {} args with
  | .help => (.help, t)
  | .usage => (.usage, t)
  | .run o c => match settings w.files o with
    | .error f => (.failed f, t)
    | .ok s => match Run.after t (perform w fresh s o.hex c) with
      | (.ok text, t) => (.printed text, t)
      | (.error (.failed e), t) => (.failed (.call e), t)
      | (.error .panicked, t) => (.panicked, t)

end LedgerClient.CommandLine

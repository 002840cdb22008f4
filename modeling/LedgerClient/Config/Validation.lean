import LedgerClient.Config.Settings
import LedgerClient.Decimal.Digits
import LedgerClient.Text.Blank
import LedgerClient.Text.Split
/-!
# Settings that can be used

Every field of the connection has to be filled in, the endpoint has to name a port, and no
deadline may be zero.  All problems are listed, in the order of the fields.
-/
namespace LedgerClient.Config

inductive Problem where
  | blank (field : String)
  | noPort (endpoint : String)
  | zero (field : String)
deriving DecidableEq, Repr

def Problem.field : Problem → String
  | .blank f => s!"connection.{f}"
  | .noPort _ => "connection.peer_endpoint"
  | .zero f => s!"timeouts.{f}"

def Problem.message : Problem → String
  | .blank _ => "must not be empty"
  | .noPort e => s!"'{e}' must be host:port"
  | .zero _ => "must be greater than zero"

def Problem.describe (p : Problem) : String := s!"{p.field}: {p.message}"

/-! ## Endpoints -/

/-- A decimal number below 65536, perhaps after a plus sign. -/
def isPort (s : List Char) : Bool :=
  let ds := if s.head? = some '+' then s.tail else s
  !ds.isEmpty && ds.all Char.isDigit && Decimal.number ds ≤ 65535

/-- A scheme, if there is one, does not matter here. -/
def hasPort (endpoint : List Char) : Bool :=
  let authority := ((Text.splitFirst? Text.schemeMark endpoint).map Prod.snd).getD endpoint
  match Text.splitLast? ':' authority with
  | some (host, port) => !host.isEmpty && isPort port
  | none => false

/-! ## Checking -/

def Profile.problems (p : Profile) : List Problem :=
  (p.fields.filter fun (_, v) => IsBlank v).map (fun (n, _) => .blank n)
    ++ if p.peerEndpoint ≠ "" && !hasPort p.peerEndpoint.toList then [.noPort p.peerEndpoint]
      else []

def Timeouts.problems (t : Timeouts) : List Problem :=
  (t.fields.filter fun (_, v) => v = 0).map fun (n, _) => .zero n

def Settings.problems (s : Settings) : List Problem :=
  s.connection.problems ++ s.timeouts.problems

def Settings.validate (s : Settings) : Except (List Problem) Unit :=
  if s.problems.isEmpty then .ok () else .error s.problems

end LedgerClient.Config

/-!
# Command-line arguments

Options stand before the command, and each may be given once; a command has a fixed number of
arguments.  An argument that looks like an option has to stand after `--`.
-/
namespace LedgerClient.CommandLine

structure Options where
  config : Option String := none
  connection : Option String := none
  hex : Bool := false
deriving DecidableEq, Repr

inductive Command where
  | submit (function payload : String)
  | evaluate (function payload : String)
  | put (key value : String)
  | get (key : String)
  | getAll
  | remove (key : String)
deriving DecidableEq, Repr

inductive Request where
  | run (o : Options) (c : Command)
  | help
  | usage
deriving DecidableEq, Repr

def looksLikeOption (a : String) : Bool := a.startsWith "-" && a ≠ "-"

/-! ## Commands -/

/-- The arguments of a command, in order. -/
inductive Collected where
  | arguments (as : List String)
  | help
  | usage

/-- Takes the arguments that are left, at most `n` of them; after `--` all count. -/
def collect : Nat → Bool → List String → Collected
  | _, _, [] => .arguments []
  | n, verbatim, a :: r =>
    if !verbatim && a = "--" then collect n true r
    else if !verbatim && (a = "--help" || a.startsWith "-h") then .help
    else if !verbatim && looksLikeOption a then .usage
    else match n with
      | 0 => .usage
      | k + 1 => match collect k verbatim r with
        | .arguments as => .arguments (a :: as)
        | c => c

/-- A command by its name: how many arguments it has, and what it is with them. -/
structure Form where
  name : String
  arity : Nat
  build : List String → Option Command

def two (f : String → String → Command) : List String → Option Command
  | [a, b] => some (f a b)
  | _ => none

def one (f : String → Command) : List String → Option Command
  | [a] => some (f a)
  | _ => none

def nothing (c : Command) : List String → Option Command
  | [] => some c
  | _ => none

def forms : List Form :=
  [⟨"submit", 2, two .submit⟩, ⟨"evaluate", 2, two .evaluate⟩, ⟨"put", 2, two .put⟩,
    ⟨"get", 1, one .get⟩, ⟨"get-all", 0, nothing .getAll⟩, ⟨"remove", 1, one .remove⟩]

def commandHelp : List String → Request
  | [] => .help
  | [a] => if a = "help" || forms.any (·.name = a) then .help else .usage
  | _ => .usage

def command (o : Options) (name : String) (rest : List String) : Request :=
  match forms.find? (·.name = name) with
  | none => if name = "help" then commandHelp rest else .usage
  | some f => match collect f.arity false rest with
    | .help => .help
    | .usage => .usage
    | .arguments as => match f.build as with
      | some c => .run o c
      | none => .usage

/-! ## Options -/

def setConfig (o : Options) (v : String) : Option Options :=
  if o.config.isSome || v.isEmpty then none else some { o with config := some v }

def setConnection (o : Options) (v : String) : Option Options :=
  if o.connection.isSome then none else some { o with connection := some v }

def setHex (o : Options) : Option Options :=
  if o.hex then none else some { o with hex := true }

/-- What an argument in front of the command is. -/
inductive Shape where
  | help
  | hex
  | setting (set : Options → String → Option Options) (value : Option String)
  | word
  | unknown

/-- The text after `p`, if `a` starts with it. -/
def after? (p a : String) : Option String :=
  if p.toList.isPrefixOf a.toList then some (String.ofList (a.toList.drop p.length)) else none

def shape (a : String) : Shape :=
  if a = "--help" then .help
  else if a = "--hex" then .hex
  else if a = "--config" then .setting setConfig none
  else if a = "--connection" then .setting setConnection none
  else match after? "--config=" a, after? "--connection=" a with
    | some v, _ => .setting setConfig (some v)
    | _, some v => .setting setConnection (some v)
    | none, none =>
      if a.startsWith "--" then .unknown
      else match after? "-c=" a, after? "-c" a with
        | some v, _ => .setting setConfig (some v)
        | none, some v => .setting setConfig (if v.isEmpty then none else some v)
        | none, none =>
          if a.startsWith "-h" then .help
          else if looksLikeOption a then .unknown
          else .word

def parse (o : Options) : List String → Request
  | [] => .usage
  | a :: r => match shape a with
    | .help => .help
    | .unknown => .usage
    | .word => command o a r
    | .hex => match setHex o with
      | some o => parse o r
      | none => .usage
    | .setting set (some v) => match set o v with
      | some o => parse o r
      | none => .usage
    | .setting set none => match r with
      | [] => .usage
      | v :: r =>
        if looksLikeOption v then .usage
        else match set o v with
          | some o => parse o r
          | none => .usage

end LedgerClient.CommandLine

import LedgerClient.CommandLine.Execution
/-!
# The program

Carries out the command given by the arguments.  The files it may see come in on the standard
input, one a line: a path, a tab and the contents in hexadecimal digits.  There is no network here,
so every peer is absent and only the checks before the first call tell one command from another.
-/
namespace LedgerClient.Program

open Storage (FileTree)

/-- A line of the input, as a file. -/
def addLine (t : FileTree) (s : String) : FileTree :=
  match Text.splitFirst? ['\t'] (s.toList.filter (· ≠ '\n')) with
  | none => t
  | some (path, digits) => match Hex.decode (Utf8.encode digits) with
    | .error _ => t
    | .ok bs => t.insert (FileTree.components (String.ofList path)) (.file bs)

def readTree (input : String) : FileTree := (input.splitOn "\n").foldl addLine {}

def helpText : String :=
  "Usage: ledger-cli [--config FILE] [--connection JSON] [--hex] COMMAND\n"
    ++ "Commands: submit F P, evaluate F P, put K V, get K, get-all, remove K, help\n"

partial def readAll (h : IO.FS.Stream) (sofar : String) : IO String := do
  let line ← h.getLine
  if line.isEmpty then return sofar
  readAll h (sofar ++ line)

/-- None of the libraries is here that would say more. -/
def words : Wording where
  certificate _ := "malformed certificate"
  wrappedKey _ := "malformed key"
  bareKey _ := "malformed key"
  uri _ := "malformed address"
  serverName _ := "malformed name"

def report (o : CommandLine.Outcome) : IO Unit := do
  match o with
  | .printed text => IO.print text
  | .help => IO.print helpText
  | .usage => IO.eprint helpText
  | .failed (.load e) => IO.eprintln s!"Error: {e.message}"
  | .failed (.call e) => IO.eprintln s!"Error: {e.message words}"
  | .panicked => IO.eprintln "Error: the call could not be carried out"

end LedgerClient.Program

open LedgerClient in
def main (args : List String) : IO UInt32 := do
  let needsFiles := match CommandLine.parse {} args with
    | .run .. => true
    | _ => false
  let input ← if needsFiles then Program.readAll (← IO.getStdin) "" else pure ""
  let home := (← IO.getEnv "HOME").getD "/"
  let w : Surroundings := ⟨Program.readTree input, home, fun _ => .absent "no network"⟩
  let nonce ← IO.getRandomBytes 24
  let (o, _) := CommandLine.execute w ⟨nonce.toList, {}⟩ args {}
  Program.report o
  pure (UInt32.ofNat o.exit)

import LedgerClient.Credential.SigningKey
import LedgerClient.Storage.FileTree
import LedgerClient.Storage.HomePath
import LedgerClient.Trace.Run
/-!
# Key folders

A folder should hold one key file.  With more than one the choice is refused or falls on the first
by name, so it never depends on the order in which the folder is listed.  The names are text, as all
names of a `FileTree` are.
-/
namespace LedgerClient.KeyStore

open Storage (FileTree)

/-- The path of the entry `name` of the folder `dir`. -/
def entryPath (dir name : String) : String :=
  String.ofList (Storage.join dir.toList name.toList)

/-- The names that stand for files, or an entry that cannot be followed. -/
def candidates (files : FileTree) (dir : String) : List String → Except CallError (List String)
  | [] => .ok []
  | n :: ns => match files.isFile (entryPath dir n) with
    | .error c => .error (.io (entryPath dir n) c)
    | .ok b => (candidates files dir ns).map fun r => if b then n :: r else r

/-- The first name in the order of code points, which is that of their bytes. -/
def least (n : String) (ns : List String) : String :=
  ns.foldl (fun a b => if b < a then b else a) n

/-- The chosen file and how many there were to choose from. -/
structure Choice where
  path : String
  count : Nat
deriving DecidableEq, Repr

/-- Chooses among the entries of a folder, listed in any order. -/
def chooseAmong (files : FileTree) (dir : String) (strict : Bool) (names : List String) :
    Except CallError Choice :=
  match candidates files dir names with
  | .error e => .error e
  | .ok [] => .error (.noKeyFound dir)
  | .ok (n :: ns) =>
    if strict && !ns.isEmpty then .error (.ambiguousKey dir (ns.length + 1))
    else .ok ⟨entryPath dir (least n ns), ns.length + 1⟩

def choose (files : FileTree) (dir : String) (strict : Bool) : Except CallError Choice :=
  match files.list dir with
  | .error c => .error (.io dir c)
  | .ok names => chooseAmong files dir strict names

/-- Chooses, and reports a choice among many. -/
def select (files : FileTree) (dir : String) (strict : Bool) : Run String := do
  let c ← Run.ofExcept (choose files dir strict)
  if 1 < c.count then Run.report (.manyKeys dir c.count c.path)
  pure c.path

def readKey (files : FileTree) (path : String) : Except CallError P256.PrivateKey :=
  match files.read path with
  | .error c => .error (.io path c)
  | .ok pem => match SigningKey.ofPem pem with
    | .error c => .error (.parse c)
    | .ok k => .ok k

/-- The key in a folder whose path may start at home. -/
def load (files : FileTree) (home dir : String) (strict : Bool) : Run P256.PrivateKey := do
  let path ← select files (Storage.expandHome home dir) strict
  Run.ofExcept (readKey files path)

end LedgerClient.KeyStore

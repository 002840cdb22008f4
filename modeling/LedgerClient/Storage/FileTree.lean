import LedgerClient.Error.CallError
import LedgerClient.Text.Split
/-!
# File trees

Files, folders and symbolic links under one root.  A path is followed name by name; links are
followed wherever they stand, up to forty of them.  What is read is what stands at the end.

Names are text: a tree has no entry whose name is bytes that are not well-formed UTF-8, which a disk
could have.
-/
namespace LedgerClient.Storage

inductive Node where
  | file (contents : List UInt8)
  | folder
  | link (target : String)
deriving DecidableEq

/-- Entries by the names on the way to them.  The root is always there. -/
structure FileTree where
  entries : List (List String × Node) := []
  /-- Where relative paths start. -/
  here : List String := []

namespace FileTree

def lookup (t : FileTree) (p : List String) : Option Node :=
  if p.isEmpty then some .folder else (t.entries.find? fun e => e.1 = p).map Prod.snd

/-- The names right below a folder. -/
def names (t : FileTree) (p : List String) : List String :=
  t.entries.filterMap fun e =>
    match e.1.getLast? with
    | some n => if e.1.dropLast = p then some n else none
    | none => none

/-! ## Changing -/

/-- Without the entry at `p` and all below it. -/
def erase (t : FileTree) (p : List String) : FileTree :=
  { t with entries := t.entries.filter fun e => !p.isPrefixOf e.1 }

/-- With the folders that lead to `p`. -/
def withParents (t : FileTree) (p : List String) : FileTree :=
  (List.range p.length).foldl (fun t n =>
    if (t.lookup (p.take n)).isSome then t
    else { t with entries := t.entries ++ [(p.take n, .folder)] }) t

def insert (t : FileTree) (p : List String) (n : Node) : FileTree :=
  let t := (t.erase p).withParents p
  { t with entries := t.entries ++ [(p, n)] }

/-! ## Paths -/

def separator : Char := '/'

/-- The names of a path.  A slash at the end asks for a folder, as `.` does. -/
def components (p : String) : List String :=
  let parts := (Text.splitAll separator p.toList).filter (· ≠ [])
  parts.map String.ofList ++ if p.toList.getLast? = some separator then ["."] else []

def isAbsolute (p : String) : Bool := p.toList.head? = some separator

def notFound : IoCause := .code 2
def notFolder : IoCause := .code 20
def isFolder : IoCause := .code 21
def nameTooLong : IoCause := .code 36
def tooManyLinks : IoCause := .code 40

def maxName : Nat := 255
def maxPath : Nat := 4095
def maxLinks : Nat := 40

/-- What stands at the end of a path, and the names on the way to it. -/
abbrev Place := List String × Node

/-- Follows names from the folder `p` on.  At a link, `follow` goes on, given the folder it stands
in, its target and the names left. -/
def walkNames (t : FileTree) (follow : List String → String → List String → Except IoCause Place)
    (p : List String) : List String → Except IoCause Place
  | [] => .ok (p, .folder)
  | n :: r =>
    if n = "." then walkNames t follow p r
    else if n = ".." then walkNames t follow p.dropLast r
    else if maxName < n.utf8ByteSize then .error nameTooLong
    else match t.lookup (p ++ [n]) with
      | none => .error notFound
      | some .folder => walkNames t follow (p ++ [n]) r
      | some (.file c) => if r.isEmpty then .ok (p ++ [n], .file c) else .error notFolder
      | some (.link target) => follow p target r

/-- Follows names and at most `links` links. -/
def walk (t : FileTree) : Nat → List String → List String → Except IoCause Place
  | 0 => walkNames t fun _ _ _ => .error tooManyLinks
  | k + 1 => walkNames t fun p target r =>
    walk t k (if isAbsolute target then [] else p) (components target ++ r)

/-- The file or folder at the end of a path. -/
def resolve (t : FileTree) (path : String) : Except IoCause Place :=
  if path.toList.contains '\x00' then .error .nulInPath
  else if path.toList.isEmpty then .error notFound
  else if maxPath < path.utf8ByteSize then .error nameTooLong
  else t.walk maxLinks (if isAbsolute path then [] else t.here) (components path)

/-! ## Reading -/

def read (t : FileTree) (path : String) : Except IoCause (List UInt8) :=
  match t.resolve path with
  | .error e => .error e
  | .ok (_, .file c) => .ok c
  | .ok _ => .error isFolder

def readText (t : FileTree) (path : String) : Except IoCause String :=
  match t.read path with
  | .error e => .error e
  | .ok c => match text? c with
    | .ok s => .ok s
    | .error _ => .error .notUtf8

/-- The names in a folder, in no particular order. -/
def list (t : FileTree) (path : String) : Except IoCause (List String) :=
  match t.resolve path with
  | .error e => .error e
  | .ok (p, .folder) => .ok (t.names p)
  | .ok _ => .error notFolder

def isFile (t : FileTree) (path : String) : Except IoCause Bool :=
  (t.resolve path).map fun (_, n) => match n with
    | .file _ => true
    | _ => false

def exists? (t : FileTree) (path : String) : Bool := (t.resolve path).toBool

end FileTree
end LedgerClient.Storage

/-!
# Paths that start at home

A path that is `~` or starts with `~/` lies under the home folder.  All slashes after the tilde go,
so that none of them makes the rest start at the root.
-/
namespace LedgerClient.Storage

def slash : Char := '/'

/-- One slash stands between the two, unless `home` brings it. -/
def join (home rest : List Char) : List Char :=
  if home.getLast? = some slash then home ++ rest else home ++ slash :: rest

def expandChars (home : List Char) : List Char → List Char
  | '~' :: r =>
    if r.isEmpty || r.head? = some slash then join home (r.dropWhile (· = slash)) else '~' :: r
  | s => s

def expandHome (home path : String) : String :=
  String.ofList (expandChars home.toList path.toList)

end LedgerClient.Storage

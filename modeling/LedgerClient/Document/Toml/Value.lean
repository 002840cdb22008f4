import LedgerClient.Decimal.Style
import LedgerClient.Document.Found
/-!
# TOML values and how tables grow

A document is one table that its lines fill.  How a table came to be decides what may be added to
it later: `update` finds the table at the end of a path, makes those that are missing on the way,
and refuses to enter what is closed.
-/
namespace LedgerClient.Toml

open Document (Found)

/-- What made a table: being on the way to a header, a dotted key, its own header, or braces. -/
inductive Origin where
  | passed
  | dotted
  | header
  | braces
deriving DecidableEq, Repr

/-- A date or time is kept without its digits, which nothing asks for.  A list that `grows` is one
of tables, and its headers add to it. -/
inductive Value where
  | text (s : String)
  | integer (n : Int)
  | real (x : Float)
  | boolean (b : Bool)
  | moment
  | list (grows : Bool) (vs : List Value)
  | table (o : Origin) (items : List (String × Value))

abbrev Items := List (String × Value)

def Value.found : Value → Found
  | .text s => .text s
  | .integer n => .integer n
  | .real x => .real (Decimal.Style.full.render x)
  | .boolean b => .boolean b
  | .moment => .map
  | .list .. => .sequence
  | .table .. => .map

/-! ## Items -/

def replace (k : String) (v : Value) : Items → Items
  | [] => []
  | (a, b) :: r => if a = k then (a, v) :: r else (a, b) :: replace k v r

def remove (k : String) (items : Items) : Items := items.filter (·.1 ≠ k)

/-- Changes the table at the end of a path from a table of origin `o` on.  Dotted keys may not
enter a table with a header of its own, and nothing may enter braces. -/
def update (byKey : Bool) (f : Origin → Items → Option Items) :
    List String → Origin → Items → Option Items
  | [], o, items => f o items
  | k :: ks, _, items => match items.lookup k with
    | none =>
      let fresh := if byKey then Origin.dotted else .passed
      (update byKey f ks fresh []).map fun t => items ++ [(k, .table fresh t)]
    | some (.table o t) =>
      if o = .braces || (byKey && o = .header) then none
      else (update byKey f ks o t).map fun t => replace k (.table o t) items
    | some (.list true vs) => match vs.getLast? with
      | some (.table o t) =>
        (update byKey f ks o t).map fun t =>
          replace k (.list true (vs.dropLast ++ [.table o t])) items
      | _ => none
    | some _ => none

/-- Adds the value of a key whose parts before the last are `path`; a key of several parts adds
only to tables that such keys made. -/
def define (path : List String) (k : String) (v : Value) (o : Origin) (items : Items) :
    Option Items :=
  update true (fun o items =>
    if (o == .dotted) == path.isEmpty || (items.lookup k).isSome then none
    else some (items ++ [(k, v)])) path o items

/-! ## Headers -/

/-- The table `k` gets its header, which it can get once; what was put into it on the way to
other headers stays. -/
def openTable (k : String) (_ : Origin) (items : Items) : Option Items :=
  match items.lookup k with
  | none => some (items ++ [(k, .table .header [])])
  | some (.table .passed t) => some (remove k items ++ [(k, .table .header t)])
  | some _ => none

/-- One more table for the list `k`. -/
def openElement (k : String) (_ : Origin) (items : Items) : Option Items :=
  match items.lookup k with
  | none => some (items ++ [(k, .list true [.table .header []])])
  | some (.list true vs) => some (replace k (.list true (vs ++ [.table .header []])) items)
  | some _ => none

end LedgerClient.Toml

import LedgerClient.Text.Quoted
/-!
# What was found where something else was wanted

A document can hold a value of another kind than the reader asks for.  `Found` is that value as
far as an error shows it.
-/
namespace LedgerClient.Document

inductive Found where
  | null
  | boolean (b : Bool)
  | integer (n : Int)
  | real (text : String)
  | text (s : String)
  | sequence
  | map
deriving DecidableEq, Repr

def Found.describe : Found → String
  | .null => "null"
  | .boolean true => "boolean `true`"
  | .boolean false => "boolean `false`"
  | .integer n => s!"integer `{n}`"
  | .real t => s!"floating point `{t}`"
  | .text s => s!"string {Text.quoted s}"
  | .sequence => "sequence"
  | .map => "map"

def wrongKind (f : Found) (wanted : String) : String :=
  s!"invalid type: {f.describe}, expected {wanted}"

end LedgerClient.Document

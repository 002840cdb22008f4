/-!
# Splitting text

At the first or last place of a mark, or at every one.
-/
namespace LedgerClient.Text

/-- What stands before and after the first place of `mark`. -/
def splitFirst? (mark : List Char) : List Char → Option (List Char × List Char)
  | [] => none
  | c :: r =>
    if mark.isPrefixOf (c :: r) then some ([], (c :: r).drop mark.length)
    else (splitFirst? mark r).map fun (a, b) => (c :: a, b)

/-- What stands before and after the last `m`. -/
def splitLast? (m : Char) : List Char → Option (List Char × List Char)
  | [] => none
  | c :: r => match splitLast? m r with
    | some (a, b) => some (c :: a, b)
    | none => if c = m then some ([], r) else none

/-- The parts between the places of `m`, one more than there are places. -/
def splitAll (m : Char) : List Char → List (List Char)
  | [] => [[]]
  | c :: r =>
    if c = m then [] :: splitAll m r
    else match splitAll m r with
      | [] => [[c]]
      | w :: ws => (c :: w) :: ws

/-- Stands between a scheme and the rest of an address. -/
def schemeMark : List Char := [':', '/', '/']

end LedgerClient.Text

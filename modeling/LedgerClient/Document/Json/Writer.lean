import LedgerClient.Text.Hex
/-!
# Writing JSON objects of strings

Quotes, backslashes and controls are escaped, all else is written as it is.  The compact form has
no blanks; the indented form puts each pair on a line of its own.
-/
namespace LedgerClient.Json

def escapeChar (c : Char) : List Char :=
  if c = '"' then ['\\', '"']
  else if c = '\\' then ['\\', '\\']
  else if c = '\n' then ['\\', 'n']
  else if c = '\r' then ['\\', 'r']
  else if c = '\t' then ['\\', 't']
  else if c = '\x08' then ['\\', 'b']
  else if c = '\x0c' then ['\\', 'f']
  else if c.toNat < 0x20 then
    ['\\', 'u', '0', '0', Hex.digit (c.toNat / 16), Hex.digit (c.toNat % 16)]
  else [c]

def writeText (s : List Char) : List Char := '"' :: s.flatMap escapeChar ++ ['"']

def compactPair (p : List Char × List Char) : List Char :=
  writeText p.1 ++ ':' :: writeText p.2

def indentedPair (p : List Char × List Char) : List Char :=
  '\n' :: ' ' :: ' ' :: writeText p.1 ++ ':' :: ' ' :: writeText p.2

def writeCompact (ps : List (List Char × List Char)) : List Char :=
  '{' :: [','].intercalate (ps.map compactPair) ++ ['}']

def writeIndented : List (List Char × List Char) → List Char
  | [] => ['{', '}']
  | ps => '{' :: [','].intercalate (ps.map indentedPair) ++ ['\n', '}']

end LedgerClient.Json

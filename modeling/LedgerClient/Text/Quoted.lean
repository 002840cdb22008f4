import LedgerClient.Text.Unprintable
/-!
# Quoted text

Text between double quotes, with every character in it visible: a quote and a backslash take a
backslash, NUL, tab and the two line ends have letters of their own, and any other unprintable
character is written as its code point in braces.
-/
namespace LedgerClient.Text

def lowerHex (n : Nat) : List Char := Nat.toDigits 16 n

/-- One character inside quotes of the kind `q`. -/
def escape (q c : Char) : List Char :=
  if c = '\x00' then ['\\', '0']
  else if c = '\t' then ['\\', 't']
  else if c = '\r' then ['\\', 'r']
  else if c = '\n' then ['\\', 'n']
  else if c = '\\' || c = q then ['\\', c]
  else if ' ' ≤ c && c ≤ '~' then [c]
  else if isUnprintable c then ['\\', 'u', '{'] ++ lowerHex c.toNat ++ ['}']
  else [c]

def quoteWith (q : Char) (s : List Char) : List Char := q :: s.flatMap (escape q) ++ [q]

def quoted (s : String) : String := String.ofList (quoteWith '"' s.toList)

/-- A single character, in apostrophes. -/
def quotedChar (c : Char) : String := String.ofList (quoteWith '\'' [c])

end LedgerClient.Text

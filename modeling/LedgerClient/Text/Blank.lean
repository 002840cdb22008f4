/-!
# Blanks

The characters with the Unicode property White_Space, and trimming by them.
-/
namespace LedgerClient

/-- White_Space: 25 characters, among them the ASCII ones and the line and paragraph
separators, but not the zero-width characters. -/
def isBlank (c : Char) : Bool :=
  let n := c.toNat
  (9 ≤ n && n ≤ 13) || n == 0x20 || n == 0x85 || n == 0xA0 || n == 0x1680
    || (0x2000 ≤ n && n ≤ 0x200A) || n == 0x2028 || n == 0x2029 || n == 0x202F
    || n == 0x205F || n == 0x3000

def dropTrailing (p : Char → Bool) (s : List Char) : List Char :=
  (s.reverse.dropWhile p).reverse

def trim (s : List Char) : List Char := dropTrailing isBlank (s.dropWhile isBlank)

/-- A name of nothing but blanks names nothing. -/
def IsBlank (s : String) : Prop := s.toList.all isBlank

instance (s : String) : Decidable (IsBlank s) := inferInstanceAs (Decidable (_ = true))

def trimmed (s : String) : String := String.ofList (trim s.toList)

end LedgerClient

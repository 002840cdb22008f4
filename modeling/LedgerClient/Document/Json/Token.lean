import LedgerClient.Document.Json.Fault
import LedgerClient.Text.Hex
import LedgerClient.Text.Utf8
/-!
# Blanks, literals and strings of JSON

Readers take the bytes from where a token starts (for a string: after its opening quote) and give
the bytes after it.  A string is read at the level of bytes; that its bytes are UTF-8 is checked
when it is used as text.
-/
namespace LedgerClient.Json

/-- The value read and the bytes after it, or what is wrong. -/
abbrev Reading (α : Type) := Except Fault (α × List UInt8)

/-! ## Bytes with a meaning -/

def quote : UInt8 := 0x22
def comma : UInt8 := 0x2C
def minus : UInt8 := 0x2D
def colon : UInt8 := 0x3A
def openList : UInt8 := 0x5B
def backslash : UInt8 := 0x5C
def closeList : UInt8 := 0x5D
def letterU : UInt8 := 0x75
def openObject : UInt8 := 0x7B
def closeObject : UInt8 := 0x7D

def isBlank (b : UInt8) : Bool := b = 0x20 || b = 0x0A || b = 0x09 || b = 0x0D

def isDigit (b : UInt8) : Bool := 0x30 ≤ b && b ≤ 0x39

def dropBlanks (s : List UInt8) : List UInt8 := s.dropWhile isBlank

/-! ## Literals -/

/-- The rest of `true`, `false` or `null` after its first letter. -/
def literal : List UInt8 → List UInt8 → Except Fault (List UInt8)
  | [], s => .ok s
  | _ :: _, [] => .error .endInValue
  | c :: cs, b :: r => if b = c then literal cs r else .error .badLiteral

/-- What a literal stands for and its letters after the first. -/
def literal? (b : UInt8) : Option (Document.Found × List UInt8) :=
  if b = 0x6E then some (.null, [0x75, 0x6C, 0x6C])
  else if b = 0x74 then some (.boolean true, [0x72, 0x75, 0x65])
  else if b = 0x66 then some (.boolean false, [0x61, 0x6C, 0x73, 0x65])
  else none

/-! ## Escapes

Each reader gives the bytes spelled and the number of bytes taken after the backslash. -/

/-- The one-letter escapes. -/
def escaped? (b : UInt8) : Option UInt8 :=
  if b = quote || b = backslash || b = 0x2F then some b
  else if b = 0x62 then some 0x08
  else if b = 0x66 then some 0x0C
  else if b = 0x6E then some 0x0A
  else if b = 0x72 then some 0x0D
  else if b = 0x74 then some 0x09
  else none

def hex4 : List UInt8 → Except Fault Nat
  | a :: b :: c :: d :: _ =>
    match Hex.digit? a, Hex.digit? b, Hex.digit? c, Hex.digit? d with
    | some w, some x, some y, some z => .ok (w * 4096 + x * 256 + y * 16 + z)
    | _, _, _, _ => .error .badEscape
  | _ => .error .endInString

def isLow (n : Nat) : Bool := 0xDC00 ≤ n && n ≤ 0xDFFF

def isHigh (n : Nat) : Bool := 0xD800 ≤ n && n ≤ 0xDBFF

/-- The low half that has to follow the high half `n`. -/
def lowHalf (n : Nat) (s : List UInt8) : Except Fault (List UInt8 × Nat) :=
  match s with
  | [] => .error .endInString
  | b :: r =>
    if b ≠ backslash then .error .unpairedSurrogate
    else match r with
      | [] => .error .endInString
      | c :: r =>
        if c ≠ letterU then .error .unpairedSurrogate
        else do
          let m ← hex4 r
          if isLow m then
            .ok (Utf8.encodeChar (Char.ofNat ((n - 0xD800) * 0x400 + (m - 0xDC00) + 0x10000)), 11)
          else .error .loneSurrogate

def unicodeEscape (s : List UInt8) : Except Fault (List UInt8 × Nat) := do
  let n ← hex4 s
  if isLow n then .error .loneSurrogate
  else if isHigh n then lowHalf n (s.drop 4)
  else .ok (Utf8.encodeChar (Char.ofNat n), 5)

def escape : List UInt8 → Except Fault (List UInt8 × Nat)
  | [] => .error .endInString
  | b :: r => match escaped? b with
    | some c => .ok ([c], 1)
    | none => if b = letterU then unicodeEscape r else .error .badEscape

/-- The escape of a string that is skipped: any four hexadecimal digits will do. -/
def looseEscape : List UInt8 → Except Fault (List UInt8 × Nat)
  | [] => .error .endInString
  | b :: r => match escaped? b with
    | some c => .ok ([c], 1)
    | none => if b = letterU then (hex4 r).map fun _ => ([], 5) else .error .badEscape

/-! ## Strings -/

/-- The rest of a string whose next `k` bytes belong to an escape already read. -/
def stringFrom (esc : List UInt8 → Except Fault (List UInt8 × Nat)) :
    Nat → List UInt8 → Reading (List UInt8)
  | _, [] => .error .endInString
  | k + 1, _ :: r => stringFrom esc k r
  | 0, b :: r =>
    if b = quote then .ok ([], r)
    else if b = backslash then
      match esc r with
      | .error f => .error f
      | .ok (t, n) => (stringFrom esc n r).map fun (u, v) => (t ++ u, v)
    else if b < 0x20 then .error .controlCharacter
    else (stringFrom esc 0 r).map fun (u, v) => (b :: u, v)

def readString (s : List UInt8) : Except Fault (String × List UInt8) := do
  let (bs, r) ← stringFrom escape 0 s
  match Utf8.decode bs with
  | .ok cs => .ok (String.ofList cs, r)
  | .error _ => .error .notUtf8

def skipString (s : List UInt8) : Except Fault (List UInt8) :=
  (stringFrom looseEscape 0 s).map Prod.snd

end LedgerClient.Json

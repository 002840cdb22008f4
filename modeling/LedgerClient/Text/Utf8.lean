/-!
# UTF-8

Characters to bytes (`encode`) and bytes to pieces (`pieces`): each piece is a character, a
longest ill-formed run, or a character cut off by the end.  Strict reading (`decode`) stops at
the first piece that is no character and says where it stands; `decodeLossy` puts U+FFFD for
each such piece.
-/
namespace LedgerClient.Utf8

/-! ## Writing -/

def encodeChar (c : Char) : List UInt8 :=
  let n := c.toNat
  if n < 0x80 then [UInt8.ofNat n]
  else if n < 0x800 then [UInt8.ofNat (0xC0 + n / 0x40), UInt8.ofNat (0x80 + n % 0x40)]
  else if n < 0x10000 then
    [UInt8.ofNat (0xE0 + n / 0x1000), UInt8.ofNat (0x80 + n / 0x40 % 0x40),
      UInt8.ofNat (0x80 + n % 0x40)]
  else
    [UInt8.ofNat (0xF0 + n / 0x40000), UInt8.ofNat (0x80 + n / 0x1000 % 0x40),
      UInt8.ofNat (0x80 + n / 0x40 % 0x40), UInt8.ofNat (0x80 + n % 0x40)]

def encode (s : List Char) : List UInt8 := s.flatMap encodeChar

/-! ## Reading -/

/-- What a lead byte and the bytes after it spell; the number counts the bytes after the lead
byte that belong to it. -/
inductive Front where
  | char (c : Char) (n : Nat)
  | bad (n : Nat)
  | cut

def isTail (b : UInt8) : Bool := 0x80 ≤ b && b ≤ 0xBF

/-- The six bits a tail byte carries. -/
def bits (b : UInt8) : Nat := b.toNat % 0x40

/-- The bytes that may follow `b` as the first tail byte: no overlong form, no surrogate and
nothing beyond U+10FFFF. -/
def opens (b t : UInt8) : Bool :=
  if b = 0xE0 then 0xA0 ≤ t && t ≤ 0xBF
  else if b = 0xED then 0x80 ≤ t && t ≤ 0x9F
  else if b = 0xF0 then 0x90 ≤ t && t ≤ 0xBF
  else if b = 0xF4 then 0x80 ≤ t && t ≤ 0x8F
  else isTail t

def front (b : UInt8) (r : List UInt8) : Front :=
  if b < 0x80 then .char (Char.ofNat b.toNat) 0
  else if b < 0xC2 || 0xF4 < b then .bad 0
  else match r with
    | [] => .cut
    | t :: r =>
      if !opens b t then .bad 0
      else if b < 0xE0 then .char (Char.ofNat (b.toNat % 0x20 * 0x40 + bits t)) 1
      else match r with
        | [] => .cut
        | u :: r =>
          if !isTail u then .bad 1
          else if b < 0xF0 then
            .char (Char.ofNat (b.toNat % 0x10 * 0x1000 + bits t * 0x40 + bits u)) 2
          else match r with
            | [] => .cut
            | v :: _ =>
              if !isTail v then .bad 2
              else .char (Char.ofNat
                (b.toNat % 0x08 * 0x40000 + bits t * 0x1000 + bits u * 0x40 + bits v)) 3

inductive Piece where
  | char (c : Char) (width : Nat)
  | bad (width : Nat)
  | cut

/-- The pieces of a run of bytes whose first `k` bytes belong to the piece before. -/
def piecesFrom : Nat → List UInt8 → List Piece
  | _, [] => []
  | k + 1, _ :: r => piecesFrom k r
  | 0, b :: r => match front b r with
    | .char c n => .char c (n + 1) :: piecesFrom n r
    | .bad n => .bad (n + 1) :: piecesFrom n r
    | .cut => [.cut]

def pieces (s : List UInt8) : List Piece := piecesFrom 0 s

/-- Where and how bytes stop being text. -/
inductive Fault where
  | bad (width start : Nat)
  | cut (start : Nat)
deriving DecidableEq, Repr

def Fault.message : Fault → String
  | .bad n i => s!"invalid utf-8 sequence of {n} bytes from index {i}"
  | .cut i => s!"incomplete utf-8 byte sequence from index {i}"

def collect : Nat → List Piece → Except Fault (List Char)
  | _, [] => .ok []
  | i, .char c n :: ps => (collect (i + n) ps).map (c :: ·)
  | i, .bad n :: _ => .error (.bad n i)
  | i, .cut :: _ => .error (.cut i)

def decode (s : List UInt8) : Except Fault (List Char) := collect 0 (pieces s)

def replacement : Char := '\uFFFD'

def Piece.orReplacement : Piece → Char
  | .char c _ => c
  | _ => replacement

def decodeLossy (s : List UInt8) : List Char := (pieces s).map Piece.orReplacement

end LedgerClient.Utf8

namespace LedgerClient

/-! ## Strings -/

def utf8 (s : String) : List UInt8 := Utf8.encode s.toList

def text? (bs : List UInt8) : Except Utf8.Fault String := (Utf8.decode bs).map String.ofList

def textLossy (bs : List UInt8) : String := String.ofList (Utf8.decodeLossy bs)

end LedgerClient

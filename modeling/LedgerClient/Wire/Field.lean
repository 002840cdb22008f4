import LedgerClient.Wire.Varint
/-!
# Fields

A message is a run of fields, each a number and a payload of one of five kinds.  Groups are not
used any more; one that is met is skipped as a whole, so its payload holds nothing.
-/
namespace LedgerClient.Wire

inductive Payload where
  | varint (n : Nat)
  | fixed64 (bs : List UInt8)
  | bytes (bs : List UInt8)
  | group
  | fixed32 (bs : List UInt8)
deriving DecidableEq, Repr

structure Field where
  number : Nat
  payload : Payload
deriving DecidableEq, Repr

/-! ## Writing -/

def Payload.kind : Payload → Nat
  | .varint _ => 0
  | .fixed64 _ => 1
  | .bytes _ => 2
  | .group => 3
  | .fixed32 _ => 5

def kindEndGroup : Nat := 4

def Payload.encode (number : Nat) : Payload → List UInt8
  | .varint n => Wire.varint n
  | .fixed64 bs => bs
  | .bytes bs => Wire.varint bs.length ++ bs
  | .group => Wire.varint (8 * number + kindEndGroup)
  | .fixed32 bs => bs

def Field.encode (f : Field) : List UInt8 :=
  varint (8 * f.number + f.payload.kind) ++ f.payload.encode f.number

def encodeFields (fs : List Field) : List UInt8 := fs.flatMap Field.encode

/-! ## Reading -/

/-- The number and kind of a field; numbers start at one and keys have 32 bits. -/
def readKey (s : List UInt8) : Option (Nat × Nat × List UInt8) :=
  match readVarint s with
  | none => none
  | some (k, r) => if k < 0x100000000 && 8 ≤ k then some (k / 8, k % 8, r) else none

def take? (n : Nat) (s : List UInt8) : Option (List UInt8 × List UInt8) :=
  if n ≤ s.length then some (s.take n, s.drop n) else none

/-- The payload of a field that is no group. -/
def readPlain (kind : Nat) (s : List UInt8) : Option (Payload × List UInt8) :=
  match kind with
  | 0 => (readVarint s).map fun (n, r) => (.varint n, r)
  | 1 => (take? 8 s).map fun (bs, r) => (.fixed64 bs, r)
  | 2 => match readVarint s with
    | none => none
    | some (n, r) => (take? n r).map fun (bs, t) => (.bytes bs, t)
  | 5 => (take? 4 s).map fun (bs, r) => (.fixed32 bs, r)
  | _ => none

/-- Skips to the end of the outermost of the open groups, given innermost first.  A field must
have fewer than `limit` groups around it.  `fuel` bounds the fields. -/
def skipGroups (limit : Nat) : Nat → List Nat → List UInt8 → Option (List UInt8)
  | _, [], s => some s
  | 0, _ :: _, _ => none
  | fuel + 1, g :: gs, s => match readKey s with
    | none => none
    | some (number, kind, r) =>
      if kind = kindEndGroup then if number = g then skipGroups limit fuel gs r else none
      else if limit ≤ (g :: gs).length then none
      else if kind = 3 then skipGroups limit fuel (number :: g :: gs) r
      else match readPlain kind r with
        | none => none
        | some (_, t) => skipGroups limit fuel (g :: gs) t

def readField (limit : Nat) (s : List UInt8) : Option (Field × List UInt8) :=
  match readKey s with
  | none => none
  | some (number, kind, r) =>
    if kind = 3 then (skipGroups limit r.length [number] r).map fun t => (⟨number, .group⟩, t)
    else (readPlain kind r).map fun (p, t) => (⟨number, p⟩, t)

/-- Every field takes at least one byte, so the length of the bytes is `fuel` enough. -/
def readFieldsFrom (limit : Nat) : Nat → List UInt8 → Option (List Field)
  | _, [] => some []
  | 0, _ :: _ => none
  | fuel + 1, s => match readField limit s with
    | none => none
    | some (f, r) => (readFieldsFrom limit fuel r).map (f :: ·)

def readFields (limit : Nat) (s : List UInt8) : Option (List Field) :=
  readFieldsFrom limit s.length s

end LedgerClient.Wire

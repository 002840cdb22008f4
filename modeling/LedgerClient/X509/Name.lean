import LedgerClient.Der.Lenient
import LedgerClient.Text.Hex
import LedgerClient.Text.Utf8
/-!
# Distinguished names

A name is a sequence of sets of attributes.  Reading takes the sets up to the first malformed one;
the text of a name joins attributes by ` + ` and sets by `, `.
-/
namespace LedgerClient.X509

structure Attribute where
  type : List UInt8
  tag : Nat
  value : List UInt8
deriving DecidableEq, Repr

abbrev Name := List (List Attribute)

/-! ## Reading -/

def oneAttribute (s : List UInt8) : Option (Attribute × List UInt8) :=
  match Der.tagged Der.tagSequence s with
  | none => none
  | some (e, r) => match Der.primitive Der.tagObject e.contents with
    | none => none
    | some (o, v) => (Der.element v).map fun (x, _) => (⟨o, x.tag, x.contents⟩, r)

/-- Reads as many as there are; an element takes at least two bytes, so the length bounds them. -/
def many {α : Type} (one : List UInt8 → Option (α × List UInt8)) :
    Nat → List UInt8 → List α × List UInt8
  | 0, s => ([], s)
  | n + 1, s => match one s with
    | none => ([], s)
    | some (a, r) =>
      let (as, t) := many one n r
      (a :: as, t)

/-- A set of attributes, which holds at least one. -/
def attributes (s : List UInt8) : Option (List Attribute × List UInt8) :=
  match Der.tagged Der.tagSet s with
  | none => none
  | some (e, r) => match (many oneAttribute e.contents.length e.contents).1 with
    | [] => none
    | as => some (as, r)

def name (s : List UInt8) : Option (Name × List UInt8) :=
  (Der.tagged Der.tagSequence s).map fun (e, r) =>
    ((many attributes e.contents.length e.contents).1, r)

/-! ## Text -/

/-- The attribute types under `2.5.4` that have a name of their own. -/
def directoryName? : Nat → Option String
  | 3 => some "CN"
  | 4 => some "surname"
  | 5 => some "serialNumber"
  | 6 => some "C"
  | 7 => some "L"
  | 8 => some "ST"
  | 9 => some "streetAddress"
  | 10 => some "O"
  | 11 => some "OU"
  | 12 => some "title"
  | 13 => some "description"
  | 15 => some "businessCategory"
  | 17 => some "postalCode"
  | 41 => some "name"
  | 42 => some "givenName"
  | 43 => some "initials"
  | 44 => some "generationQualifier"
  | 46 => some "dnQualifier"
  | _ => none

/-- The numbers of an object identifier: the first byte holds two of them, the other bytes seven
bits each. -/
def arcsFrom (n : Nat) : List UInt8 → List Nat
  | [] => []
  | [b] => [n * 128 + b.toNat % 128]
  | b :: r =>
    let m := n * 128 + b.toNat % 128
    if b.toNat < 128 then m :: arcsFrom 0 r else arcsFrom m r

def arcs : List UInt8 → List Nat
  | [] => []
  | [0] => [0]
  | b :: r => b.toNat / 40 :: b.toNat % 40 :: arcsFrom 0 r

def dotted (o : List UInt8) : String := ".".intercalate ((arcs o).map toString)

def typeName (o : List UInt8) : String :=
  let other := s!"OID({dotted o})"
  match o with
  | [0x55, 0x04, n] => (directoryName? n.toNat).getD other
  | [0x09, 0x92, 0x26, 0x89, 0x93, 0xF2, 0x2C, 0x64, 0x01, 0x19] => "DC"
  | [0x2A, 0x86, 0x48, 0x86, 0xF7, 0x0D, 0x01, 0x09, 0x01] => "Email"
  | _ => other

/-- String types whose contents are taken as UTF-8. -/
def isTextTag (t : Nat) : Bool := [7, 12, 18, 19, 20, 21, 22, 25, 26, 27].contains t

def tagWideText : Nat := 30

/-- Units of two bytes; an odd byte at the end is a unit of its own. -/
def units16 : List UInt8 → List Nat
  | [] => []
  | [b] => [b.toNat]
  | a :: b :: r => (a.toNat * 256 + b.toNat) :: units16 r

/-- Surrogates have to come in pairs. -/
def ofUnits16 : List Nat → Option (List Char)
  | [] => some []
  | [n] => if 0xD800 ≤ n && n ≤ 0xDFFF then none else some [Char.ofNat n]
  | n :: m :: r =>
    if 0xD800 ≤ n && n ≤ 0xDBFF then
      if 0xDC00 ≤ m && m ≤ 0xDFFF then
        (ofUnits16 r).map (Char.ofNat ((n - 0xD800) * 0x400 + (m - 0xDC00) + 0x10000) :: ·)
      else none
    else if 0xDC00 ≤ n && n ≤ 0xDFFF then none
    else (ofUnits16 (m :: r)).map (Char.ofNat n :: ·)

def Attribute.text? (a : Attribute) : Option String :=
  if isTextTag a.tag then (LedgerClient.text? a.value).toOption
  else if a.tag = tagWideText then (ofUnits16 (units16 a.value)).map String.ofList
  else some (hex a.value).toUpper

def Attribute.render? (a : Attribute) : Option String :=
  a.text?.map fun t => s!"{typeName a.type}={t}"

/-- A name with an attribute that is no text has one text for all of it. -/
def Name.render (n : Name) : String :=
  match n.mapM fun as => (as.mapM Attribute.render?).map (" + ".intercalate ·) with
  | some sets => ", ".intercalate sets
  | none => "<X509Error: Invalid X.509 name>"

end LedgerClient.X509

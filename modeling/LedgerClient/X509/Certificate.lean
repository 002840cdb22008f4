import LedgerClient.X509.Name
import LedgerClient.X509.Time
/-!
# The form of a certificate

Which byte strings are certificates, and the two names in them.  Signature, key and the contents of
extensions are not looked into; inside a sequence, what follows the last field that is known is
ignored.
-/
namespace LedgerClient.X509

structure Names where
  issuer : Name
  subject : Name
deriving DecidableEq, Repr

/-- The contents of a sequence and the bytes after it. -/
def sequence (s : List UInt8) : Option (List UInt8 × List UInt8) :=
  (Der.tagged Der.tagSequence s).map fun (e, r) => (e.contents, r)

/-- A non-negative integer of at most four bytes, in its shortest form. -/
def versionOk (c : List UInt8) : Bool :=
  match Der.primitive Der.tagInteger c with
  | some ([], _) => false
  | some ([b], _) => b < 0x80
  | some (a :: b :: r, _) =>
    a < 0x80 && !(a = 0 && b < 0x80) && (if a = 0 then r.length + 1 else r.length + 2) ≤ 4
  | none => false

/-- The bytes after the optional version. -/
def version (s : List UInt8) : Option (List UInt8) :=
  match Der.element s with
  | some (e, r) =>
    if e.tag ≠ 0 then some s
    else if e.cls = 2 && versionOk e.contents then some r
    else none
  | none => if s.isEmpty then some s else none

/-- An object identifier and perhaps one value more. -/
def algorithm (s : List UInt8) : Option (List UInt8) :=
  match sequence s with
  | none => none
  | some (c, r) => match Der.primitive Der.tagObject c with
    | none => none
    | some (_, p) =>
      if p.isEmpty || (Der.header p).isNone || (Der.element p).isSome then some r else none

def validity (s : List UInt8) : Option (List UInt8) :=
  match sequence s with
  | none => none
  | some (c, r) => match time c with
    | none => none
    | some t => (time t).map fun _ => r

def keyInfo (s : List UInt8) : Option (List UInt8) :=
  match sequence s with
  | none => none
  | some (c, r) => match algorithm c with
    | none => none
    | some t => (Der.bits t).map fun _ => r

/-- The bytes after an optional identifier, field number `n`. -/
def uniqueId (n : Nat) (s : List UInt8) : Option (List UInt8) :=
  if s.isEmpty then some s
  else match Der.element s with
    | none => none
    | some (e, r) =>
      if e.tag ≠ n then some s
      else if e.cls = 2 && !e.constructed && Der.bitsOk e.contents then some r
      else none

/-- The bytes after an optional truth value. -/
def critical (s : List UInt8) : List UInt8 :=
  match Der.tagged 1 s with
  | some (e, r) => if e.contents.length = 1 then r else s
  | none => s

def extension (s : List UInt8) : Option (Unit × List UInt8) :=
  match sequence s with
  | none => none
  | some (c, r) => match Der.primitive Der.tagObject c with
    | none => none
    | some (_, t) => (Der.primitive Der.tagOctets (critical t)).map fun _ => ((), r)

/-- Either nothing or field 3 with a sequence of extensions, and nothing after it. -/
def extensionsOk (s : List UInt8) : Bool :=
  s.isEmpty || match Der.header s with
    | some (e, _, r) => e.tag = 3 && match sequence r with
      | some (c, []) => (many extension c.length c).2.isEmpty
      | _ => false
    | none => false

/-- The part that is signed. -/
def signedPart (s : List UInt8) : Option Names := do
  let s ← version s
  let s ← Der.skipTagged Der.tagInteger s
  let s ← algorithm s
  let (issuer, s) ← name s
  let s ← validity s
  let (subject, s) ← name s
  let s ← keyInfo s
  let s ← uniqueId 1 s
  let s ← uniqueId 2 s
  if extensionsOk s then some ⟨issuer, subject⟩ else none

/-- The names in a certificate, or `none` for bytes that are none. -/
def certificate (der : List UInt8) : Option Names := do
  let (c, _) ← sequence der
  let (t, s) ← sequence c
  let names ← signedPart t
  let s ← algorithm s
  let _ ← Der.bits s
  some names

end LedgerClient.X509

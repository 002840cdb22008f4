import LedgerClient.Text.Base64
import LedgerClient.Text.Utf8
import LedgerClient.Text.Quoted
/-!
# PEM

A file is read line by line into its items: the decoded sections with a known label, in order,
ended by a fault if one is met.  What stands outside of sections and sections with other labels
leave no item.  `read` gives that sequence whole, so "the first certificate" or "the first key"
is a statement about a list.
-/
namespace LedgerClient.Pem

inductive Kind where
  | certificate
  | publicKey
  | rsaKey
  | pkcs8Key
  | ecKey
  | revocationList
  | certificateRequest
  | echConfig
deriving DecidableEq, Repr

def Kind.label : Kind → List UInt8
  | .certificate => utf8 "CERTIFICATE"
  | .publicKey => utf8 "PUBLIC KEY"
  | .rsaKey => utf8 "RSA PRIVATE KEY"
  | .pkcs8Key => utf8 "PRIVATE KEY"
  | .ecKey => utf8 "EC PRIVATE KEY"
  | .revocationList => utf8 "X509 CRL"
  | .certificateRequest => utf8 "CERTIFICATE REQUEST"
  | .echConfig => utf8 "ECHCONFIG"

def Kind.all : List Kind :=
  [.certificate, .publicKey, .rsaKey, .pkcs8Key, .ecKey, .revocationList, .certificateRequest,
    .echConfig]

def Kind.ofLabel? (l : List UInt8) : Option Kind := Kind.all.find? (·.label = l)

structure Item where
  kind : Kind
  contents : List UInt8
deriving DecidableEq, Repr

inductive Fault where
  | unclosed (label : List UInt8)
  | illegalStart (line : List UInt8)
  | base64 (f : Base64.Fault)
deriving DecidableEq, Repr

def Fault.message : Fault → String
  | .unclosed l => s!"section end {Text.quoted (textLossy l)} missing"
  | .illegalStart l => s!"illegal section start: {Text.quoted (textLossy l)}"
  | .base64 f => f.message

/-! ## Lines -/

def isLineEnd (b : UInt8) : Bool := b = 0x0A || b = 0x0D

/-- The lines with their ends.  A carriage return ends a line, so a line feed after it is a line
of its own; `line` holds the line so far, last byte first. -/
def linesFrom (line : List UInt8) : List UInt8 → List (List UInt8)
  | [] => if line.isEmpty then [] else [line.reverse]
  | b :: r =>
    if isLineEnd b then (b :: line).reverse :: linesFrom [] r else linesFrom (b :: line) r

def lines (s : List UInt8) : List (List UInt8) := linesFrom [] s

def startMark : List UInt8 := utf8 "-----BEGIN "

def endMark (label : List UInt8) : List UInt8 := utf8 "-----END " ++ label ++ utf8 "-----"

def dash : UInt8 := 0x2D

/-- The dashes at the end of a line, looking through blanks and line ends, and the bytes before
the first of them; the line is given backwards. -/
def trailingDashes (n : Nat) (label : List UInt8) : List UInt8 → Nat × List UInt8
  | [] => (n, label)
  | b :: r =>
    if b = dash then trailingDashes (n + 1) r r
    else if isLineEnd b || b = 0x20 then trailingDashes n label r
    else (n, label)

/-- The label of a line that opens a section: it ends in exactly five dashes. -/
def label? (line : List UInt8) : Option (List UInt8) :=
  let (n, l) := trailingDashes 0 [] line.reverse
  if n = 5 then some (l.reverse.drop startMark.length) else none

/-! ## Sections -/

/-- Reads on in the section `section?` whose lines so far are `body`, last line first.  A second
opening line changes the label and keeps the lines. -/
def scan (section? : Option (List UInt8)) (body : List (List UInt8)) :
    List (List UInt8) → List (Except Fault Item)
  | [] => match section? with
    | none => []
    | some l => [.error (.unclosed l)]
  | line :: rest =>
    if startMark.isPrefixOf line then
      match label? line with
      | none => [.error (.illegalStart line)]
      | some l => scan (some l) body rest
    else match section? with
      | none => scan none body rest
      | some l =>
        if (endMark l).isPrefixOf line then
          match Kind.ofLabel? l with
          | none => scan none [] rest
          | some k => match Base64.decode body.reverse.flatten with
            | .error f => [.error (.base64 f)]
            | .ok d => .ok ⟨k, d⟩ :: scan none [] rest
        else scan (some l) (line :: body) rest

def read (s : List UInt8) : List (Except Fault Item) := scan none [] (lines s)

/-! ## Writing -/

def lineWidth : Nat := 64

/-- Breaks text into lines; the current one still takes `k` bytes. -/
def wrap : Nat → List UInt8 → List UInt8
  | _, [] => [0x0A]
  | 0, b :: r => 0x0A :: b :: wrap (lineWidth - 1) r
  | k + 1, b :: r => b :: wrap k r

/-- One section. -/
def write (i : Item) : List UInt8 :=
  let body := Base64.encode i.contents
  startMark ++ i.kind.label ++ utf8 "-----\n"
    ++ (if body.isEmpty then [] else wrap lineWidth body)
    ++ endMark i.kind.label ++ [0x0A]

end LedgerClient.Pem

import LedgerClient.Decimal.Digits
import LedgerClient.Text.Hex
import LedgerClient.Text.Utf8
/-!
# Blanks, comments and strings of TOML

Readers take the characters from where a token starts and give those after it, or nothing.
-/
namespace LedgerClient.Toml

/-- The value read and the characters after it. -/
abbrev Reading (α : Type) := Option (α × List Char)

/-- A tab, or any character that is no control. -/
def isPlain (c : Char) : Bool := c = '\t' || (' ' ≤ c && c ≠ '\x7f')

def isGap (c : Char) : Bool := c = ' ' || c = '\t'

def skipGaps (s : List Char) : List Char := s.dropWhile isGap

/-- The characters after the end of a line. -/
def newline : List Char → Option (List Char)
  | '\n' :: r => some r
  | '\r' :: '\n' :: r => some r
  | _ => none

/-- Skips blanks, line ends and comments. -/
def skipFiller : Bool → List Char → List Char
  | _, [] => []
  | inComment, c :: r =>
    if c = '\n' then skipFiller false r
    else if c = '\r' then if r.head? = some '\n' then skipFiller false r else c :: r
    else if inComment then if isPlain c then skipFiller true r else c :: r
    else if isGap c then skipFiller false r
    else if c = '#' then skipFiller true r
    else c :: r

/-- Nothing but blanks and a comment may stand before the end of the line. -/
def endLine (s : List Char) : Option (List Char) :=
  let s := skipGaps s
  let s := if s.head? = some '#' then s.dropWhile isPlain else s
  if s.isEmpty then some [] else newline s

/-! ## Strings -/

/-- The character whose code point the next `n` digits spell. -/
def codePoint (n : Nat) (s : List Char) : Option Char :=
  if s.length < n then none
  else match (s.take n).mapM Hex.value? with
    | none => none
    | some ds =>
      let v := Decimal.ofDigits 16 ds
      if v < 0xD800 || (0xE000 ≤ v && v < 0x110000) then some (Char.ofNat v) else none

/-- The character that an escape spells, and how many characters it takes after the backslash. -/
def escape : List Char → Option (Char × Nat)
  | 'b' :: _ => some ('\x08', 1)
  | 't' :: _ => some ('\t', 1)
  | 'n' :: _ => some ('\n', 1)
  | 'f' :: _ => some ('\x0c', 1)
  | 'r' :: _ => some ('\r', 1)
  | '"' :: _ => some ('"', 1)
  | '\\' :: _ => some ('\\', 1)
  | 'u' :: r => (codePoint 4 r).map (·, 5)
  | 'U' :: r => (codePoint 8 r).map (·, 9)
  | _ => none

/-- The rest of a string on one line that ends with `q`; its next `k` characters belong to an
escape already read. -/
def lineText (q : Char) (escapes : Bool) : Nat → List Char → Reading (List Char)
  | _, [] => none
  | k + 1, _ :: r => lineText q escapes k r
  | 0, c :: r =>
    if c = q then some ([], r)
    else if escapes && c = '\\' then
      match escape r with
      | none => none
      | some (d, n) => (lineText q escapes n r).map fun (t, u) => (d :: t, u)
    else if isPlain c then (lineText q escapes 0 r).map fun (t, u) => (c :: t, u)
    else none

/-- After a backslash at the end of a line: how many characters of blanks and line ends follow. -/
def lineJoin (s : List Char) : Option Nat :=
  match newline (skipGaps s) with
  | none => none
  | some r =>
    let rest := r.dropWhile fun c => isGap c || c = '\n' || c = '\r'
    some (s.length - rest.length)

/-- Whether each carriage return among the first characters stands before a line feed. -/
def returnsPaired : Nat → List Char → Bool
  | 0, _ => true
  | _, [] => true
  | k + 1, c :: r => (c ≠ '\r' || r.head? = some '\n') && returnsPaired k r

/-- The rest of a string of many lines that ends with three `q`; up to two more may stand right
before them. -/
def blockText (q : Char) (escapes : Bool) : Nat → List Char → Reading (List Char)
  | _, [] => none
  | k + 1, _ :: r => blockText q escapes k r
  | 0, c :: r =>
    if c = q then
      let n := ((c :: r).takeWhile (· = q)).length
      if 3 ≤ n then some (List.replicate (min 2 (n - 3)) q, r.drop (min 4 (n - 1)))
      else (blockText q escapes 0 r).map fun (t, u) => (c :: t, u)
    else if escapes && c = '\\' then
      match lineJoin r with
      | some n => if returnsPaired n r then blockText q escapes n r else none
      | none => match escape r with
        | none => none
        | some (d, n) => (blockText q escapes n r).map fun (t, u) => (d :: t, u)
    else if c = '\r' then
      if r.head? = some '\n' then blockText q escapes 0 r else none
    else if c = '\n' || isPlain c then
      (blockText q escapes 0 r).map fun (t, u) => (c :: t, u)
    else none

def string (q : Char) (s : List Char) : Reading String :=
  (lineText q (q = '"') 0 s).map fun (t, r) => (String.ofList t, r)

/-- A line end right after the opening quotes does not count. -/
def block (q : Char) (s : List Char) : Reading String :=
  (blockText q (q = '"') 0 ((newline s).getD s)).map fun (t, r) => (String.ofList t, r)

/-! ## Keys -/

def isBareKey (c : Char) : Bool := c.isAlphanum || c = '-' || c = '_'

def keyPart (s : List Char) : Reading String :=
  match s with
  | [] => none
  | c :: r =>
    if c = '"' || c = '\x27' then string c r
    else
      let word := s.takeWhile isBareKey
      if word.isEmpty then none else some (String.ofList word, s.dropWhile isBareKey)

/-- The parts of a key, with blanks around them, and the characters after it; each part takes at
least one character. -/
def keyParts : Nat → List Char → Reading (List String)
  | 0, _ => none
  | n + 1, s => match keyPart (skipGaps s) with
    | none => none
    | some (k, r) => match skipGaps r with
      | '.' :: t => (keyParts n t).map fun (ks, u) => (k :: ks, u)
      | t => some ([k], t)

/-- Deeper than this nothing may be nested. -/
def depthLimit : Nat := 80

def key (s : List Char) : Reading (List String) :=
  match keyParts (s.length + 1) s with
  | some (ks, r) => if ks.length < depthLimit then some (ks, r) else none
  | none => none

end LedgerClient.Toml

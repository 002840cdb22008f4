import LedgerClient.Document.Json.Number
/-!
# Reading JSON by what is wanted

Text is read left to right and the first problem met is the one reported, be it one of form or a
value of another kind than is wanted.  A value nobody asks for is skipped at any nesting depth.
-/
namespace LedgerClient.Json

open Document (Found)

/-! ## Skipping values -/

inductive Skip where
  | value
  | elements
  | members

/-- Skips a value, or the elements or members of a list or object from the next one on, with the
closing bracket.  Every step takes at least one byte, so the length of the text is fuel enough. -/
def skip : Nat → Skip → List UInt8 → Except Fault (List UInt8)
  | 0, _, _ => .error .endInValue
  | n + 1, .value, s => match dropBlanks s with
    | [] => .error .endInValue
    | b :: r =>
      if b = quote then skipString r
      else if b = openList then
        match dropBlanks r with
        | [] => .error .endInList
        | c :: t => if c = closeList then .ok t else skip n .elements (c :: t)
      else if b = openObject then
        match dropBlanks r with
        | [] => .error .endInObject
        | c :: t => if c = closeObject then .ok t else skip n .members (c :: t)
      else if b = minus then skipNumber r
      else if isDigit b then skipNumber (b :: r)
      else match literal? b with
        | some (_, cs) => literal cs r
        | none => .error .noValue
  | n + 1, .elements, s => do
    let r ← skip n .value s
    match dropBlanks r with
    | [] => .error .endInList
    | b :: t =>
      if b = comma then skip n .elements t
      else if b = closeList then .ok t
      else .error .noCommaInList
  | n + 1, .members, s => match dropBlanks s with
    | [] => .error .endInObject
    | b :: r =>
      if b ≠ quote then .error .keyNotString
      else do
        let r ← skipString r
        match dropBlanks r with
        | [] => .error .endInObject
        | c :: t =>
          if c ≠ colon then .error .noColon
          else do
            let r ← skip n .value t
            match dropBlanks r with
            | [] => .error .endInObject
            | d :: t =>
              if d = comma then skip n .members t
              else if d = closeObject then .ok t
              else .error .noCommaInObject

def skipValue (s : List UInt8) : Except Fault (List UInt8) := skip (2 * s.length + 1) .value s

/-! ## Wanted values -/

/-- The error for the value at the front of `s`, which is of another kind than wanted, or is no
value. -/
def refuse (wanted : String) (s : List UInt8) : Fault :=
  let shown {α : Type} (f : α → Found) : Reading α → Fault
    | .ok (a, _) => .wrongKind (f a) wanted
    | .error e => e
  match s with
  | [] => .endInValue
  | b :: r =>
    if b = quote then shown .text (readString r)
    else if b = openList then .wrongKind .sequence wanted
    else if b = openObject then .wrongKind .map wanted
    else if b = minus then shown id (readNumber true r)
    else if isDigit b then shown id (readNumber false s)
    else match literal? b with
      | some (f, cs) => shown (fun _ => f) ((literal cs r).map ((), ·))
      | none => .noValue

def readText (s : List UInt8) : Reading String :=
  match dropBlanks s with
  | [] => .error .endInValue
  | b :: r => if b = quote then readString r else .error (refuse "a string" (b :: r))

/-- A string or `null`. -/
def readOptionalText (s : List UInt8) : Reading (Option String) :=
  match dropBlanks s with
  | b :: r =>
    if b = 0x6E then (literal [0x75, 0x6C, 0x6C] r).map (none, ·)
    else (readText (b :: r)).map fun (t, u) => (some t, u)
  | [] => .error .endInValue

/-! ## Objects and lists -/

def dropColon (s : List UInt8) : Except Fault (List UInt8) :=
  match dropBlanks s with
  | [] => .error .endInObject
  | b :: r => if b = colon then .ok r else .error .noColon

/-- What comes next in an object or list: an item, with the bytes from its key or value on, or
the closing bracket, with the bytes after it. -/
inductive Next where
  | item (rest : List UInt8)
  | close (rest : List UInt8)

/-- A key follows, which has to be a string; `.item` holds the bytes after its opening quote. -/
def keyHere : List UInt8 → Except Fault Next
  | [] => .error .endInValue
  | b :: r =>
    if b = quote then .ok (.item r)
    else if b = closeObject then .error .trailingComma
    else .error .keyNotString

def nextKey (first : Bool) (s : List UInt8) : Except Fault Next :=
  match dropBlanks s with
  | [] => .error .endInObject
  | b :: r =>
    if b = closeObject then .ok (.close r)
    else if first then keyHere (b :: r)
    else if b = comma then keyHere (dropBlanks r)
    else .error .noCommaInObject

/-- Reads members up to the closing brace.  `member` takes what was read so far, a key and the
bytes after the key. -/
def members {σ : Type} (member : σ → String → List UInt8 → Except Fault (σ × List UInt8)) :
    Nat → Bool → σ → List UInt8 → Except Fault (σ × List UInt8)
  | 0, _, _, _ => .error .endInObject
  | n + 1, first, st, s => do
    match ← nextKey first s with
    | .close r => .ok (st, r)
    | .item r =>
      let (key, r) ← readString r
      let (st, r) ← member st key r
      members member n false st r

def elementHere : List UInt8 → Except Fault Next
  | [] => .error .endInValue
  | b :: r => if b = closeList then .error .trailingComma else .ok (.item (b :: r))

def nextElement (first : Bool) (s : List UInt8) : Except Fault Next :=
  match dropBlanks s with
  | [] => .error .endInList
  | b :: r =>
    if b = closeList then .ok (.close r)
    else if first then elementHere (b :: r)
    else if b = comma then elementHere (dropBlanks r)
    else .error .noCommaInList

/-- The closing bracket of a list of which all wanted elements are read. -/
def endList (s : List UInt8) : Except Fault (List UInt8) :=
  match dropBlanks s with
  | [] => .error .endInList
  | b :: r =>
    if b = closeList then .ok r
    else if b = comma then
      if (dropBlanks r).head? = some closeList then .error .trailingComma
      else .error .trailingCharacters
    else .error .trailingCharacters

/-- Nothing but blanks may follow a document. -/
def finish {α : Type} : Reading α → Except Fault α
  | .error f => .error f
  | .ok (a, r) => if (dropBlanks r).isEmpty then .ok a else .error .trailingCharacters

/-! ## Objects of strings -/

def textMember (ps : List (String × String)) (k : String) (s : List UInt8) :
    Except Fault (List (String × String) × List UInt8) := do
  let r ← dropColon s
  let (v, r) ← readText r
  .ok (ps ++ [(k, v)], r)

/-- The pairs of an object whose values are all strings, in the order of the text. -/
def readTexts (s : List UInt8) : Except Fault (List (String × String)) :=
  finish (match dropBlanks s with
    | [] => .error .endInValue
    | b :: r =>
      if b = openObject then members textMember (s.length + 1) true [] r
      else .error (refuse "a map" (b :: r)))

end LedgerClient.Json

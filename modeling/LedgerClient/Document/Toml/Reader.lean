import LedgerClient.Document.Toml.Scalar
/-!
# TOML documents

Lines are read one after the other.  A header says which table the following keys belong to.  What
is wrong with a text that is no document is not told apart.
-/
namespace LedgerClient.Toml

/-- The parts of a key before the last, and the last. -/
def splitKey (ks : List String) : Option (List String × String) :=
  ks.getLast?.map fun k => (ks.dropLast, k)

/-- Adds a key and its value to a table. -/
def addTo (o : Origin) (ks : List String) (v : Value) (items : Items) : Option Items :=
  (splitKey ks).bind fun (path, k) => define path k v o items

/-! ## Values

Of two steps at least one takes a character, so twice the length of the text is fuel enough.
`depth` counts the brackets and braces around. -/

mutual

def value : Nat → Nat → List Char → Reading Value
  | 0, _, _ => none
  | n + 1, depth, s => match s with
    | '"' :: '"' :: '"' :: r => (block '"' r).map fun (t, u) => (.text t, u)
    | '\x27' :: '\x27' :: '\x27' :: r => (block '\x27' r).map fun (t, u) => (.text t, u)
    | '"' :: r => (string '"' r).map fun (t, u) => (.text t, u)
    | '\x27' :: r => (string '\x27' r).map fun (t, u) => (.text t, u)
    | '[' :: r => if depth + 1 < depthLimit then elements n (depth + 1) [] r else none
    | '{' :: r => if depth + 1 < depthLimit then pairs n (depth + 1) true [] r else none
    | _ => scalar s

/-- The elements up to the closing bracket; `vs` are those before, last first.  A comma may stand
before the bracket. -/
def elements : Nat → Nat → List Value → List Char → Reading Value
  | 0, _, _, _ => none
  | n + 1, depth, vs, s => match skipFiller false s with
    | ']' :: r => some (.list false vs.reverse, r)
    | s => match value n depth s with
      | none => none
      | some (v, r) => match skipFiller false r with
        | ',' :: t => elements n depth (v :: vs) t
        | ']' :: t => some (.list false (v :: vs).reverse, t)
        | _ => none

/-- The pairs up to the closing brace, all on one line. -/
def pairs : Nat → Nat → Bool → Items → List Char → Reading Value
  | 0, _, _, _, _ => none
  | n + 1, depth, first, items, s => match first, skipGaps s with
    | true, '}' :: r => some (.table .braces items, r)
    | _, s => match key s with
      | some (ks, '=' :: r) => match value n depth (skipGaps r) with
        | none => none
        | some (v, r) => match addTo .braces ks v items with
          | none => none
          | some items => match skipGaps r with
            | ',' :: t => pairs n depth false items t
            | '}' :: t => some (.table .braces items, t)
            | _ => none
      | _ => none

end

/-! ## Lines -/

/-- What was read so far, and the header under which the next lines stand. -/
structure Draft where
  root : Items := []
  here : List String := []

/-- A header and the rest of its line. -/
def header (d : Draft) (s : List Char) : Option (Draft × List Char) :=
  let single (s : List Char) : Option (List String × Bool × List Char) := match key s with
    | some (ks, ']' :: r) => some (ks, false, r)
    | _ => none
  let parts := match s with
    | '[' :: r => match key r with
      | some (ks, ']' :: ']' :: t) => some (ks, true, t)
      | _ => none
    | s => single s
  match parts with
  | none => none
  | some (ks, many, r) => match splitKey ks, endLine r with
    | some (path, k), some r =>
      (update false (if many then openElement k else openTable k) path .header d.root).map
        fun root => (⟨root, ks⟩, r)
    | _, _ => none

/-- A key, its value and the rest of its line. -/
def assignment (d : Draft) (s : List Char) : Option (Draft × List Char) :=
  match key s with
  | some (ks, '=' :: r) => match value (2 * s.length + 2) 0 (skipGaps r) with
    | none => none
    | some (v, r) => match endLine r with
      | none => none
      | some r =>
        (update false (fun o t => addTo o ks v t) d.here .header d.root).map fun root =>
          ({ d with root }, r)
  | _ => none

/-- Each line takes at least one character. -/
def lines : Nat → Draft → List Char → Option Draft
  | 0, _, _ => none
  | n + 1, d, s => match skipGaps s with
    | [] => some d
    | '#' :: r => (endLine ('#' :: r)).bind (lines n d)
    | '\n' :: r => lines n d r
    | '\r' :: r => (newline ('\r' :: r)).bind (lines n d)
    | '[' :: r => (header d r).bind fun (d, t) => lines n d t
    | s => (assignment d s).bind fun (d, t) => lines n d t

/-- A mark of the encoding may stand in front. -/
def document (s : List Char) : Option Items :=
  let s := match s with
    | '\uFEFF' :: r => r
    | s => s
  (lines (s.length + 1) {} s).map (·.root)

end LedgerClient.Toml

import LedgerClient.Calendar
import LedgerClient.Document.Toml.Text
import LedgerClient.Document.Toml.Value
/-!
# Numbers, truth values, dates and times of TOML

Such a value is a word: a run of letters, digits and a few signs that is taken whole or refused.
-/
namespace LedgerClient.Toml

def isWordChar (c : Char) : Bool := isBareKey c || c = '+' || c = '.' || c = ':'

/-! ## Integers -/

/-- Digits below `base`, between which single underscores may stand. -/
def digits (base : Nat) : List Char → Option (List Nat)
  | [] => none
  | [c] => (Hex.value? c).bind fun d => if d < base then some [d] else none
  | c :: '_' :: r => match Hex.value? c with
    | some d => if d < base then (digits base r).map (d :: ·) else none
    | none => none
  | c :: r => match Hex.value? c with
    | some d => if d < base then (digits base r).map (d :: ·) else none
    | none => none

/-- Decimal digits without a zero in front of others. -/
def decimalDigits (s : List Char) : Option (List Nat) :=
  match digits 10 s with
  | some (0 :: _ :: _) => none
  | r => r

def inRange (n : Int) : Option Value :=
  if -0x8000000000000000 ≤ n && n < 0x8000000000000000 then some (.integer n) else none

def signed : List Char → Bool × List Char
  | '+' :: r => (false, r)
  | '-' :: r => (true, r)
  | s => (false, s)

def integer? (s : List Char) : Option Value :=
  match s with
  | '0' :: 'x' :: r => (digits 16 r).bind fun ds => inRange (Decimal.ofDigits 16 ds)
  | '0' :: 'o' :: r => (digits 8 r).bind fun ds => inRange (Decimal.ofDigits 8 ds)
  | '0' :: 'b' :: r => (digits 2 r).bind fun ds => inRange (Decimal.ofDigits 2 ds)
  | _ =>
    let (negative, r) := signed s
    (decimalDigits r).bind fun ds =>
      inRange (if negative then -(Decimal.ofDigits 10 ds : Int) else Decimal.ofDigits 10 ds)

/-! ## Reals -/

/-- A number with a decimal exponent; too large a positive one is refused. -/
def scaled (negative : Bool) (ds : List Nat) (e : Int) : Option Value :=
  let x := Decimal.nearest (Decimal.ofDigits 10 ds) e
  if negative then some (.real (-x)) else if x.isInf then none else some (.real x)

def exponent? (s : List Char) : Option Int :=
  let (negative, r) := signed s
  (digits 10 r).map fun ds => if negative then -(Decimal.ofDigits 10 ds : Int) else Decimal.ofDigits 10 ds

/-- A real has a point or an exponent, unless it is infinite or no number. -/
def real? (s : List Char) : Option Value :=
  let (negative, r) := signed s
  if r = ['i', 'n', 'f'] then some (.real (if negative then -1.0 / 0.0 else 1.0 / 0.0))
  else if r = ['n', 'a', 'n'] then some (.real (0.0 / 0.0))
  else
    let isExp (c : Char) : Bool := c = 'e' || c = 'E'
    let mantissa := r.takeWhile (!isExp ·)
    let whole := mantissa.takeWhile (· ≠ '.')
    let fraction := match mantissa.dropWhile (· ≠ '.') with
      | [] => some []
      | _ :: f => digits 10 f
    let e := match r.dropWhile (!isExp ·) with
      | [] => some 0
      | _ :: t => exponent? t
    match decimalDigits whole, fraction, e with
    | some ds, some fs, some e =>
      if whole = r then none else scaled negative (ds ++ fs) (e - fs.length)
    | _, _, _ => none

/-! ## Dates and times -/

/-- The number that the next `n` digits spell. -/
def fixed (n : Nat) (s : List Char) : Reading Nat :=
  let ds := s.take n
  if ds.length = n && ds.all Char.isDigit then
    some (Decimal.number ds, s.drop n)
  else none

/-- The characters after `c`. -/
def after (c : Char) : List Char → Option (List Char)
  | [] => none
  | d :: r => if d = c then some r else none

/-- The characters after a day of the calendar. -/
def date (s : List Char) : Option (List Char) := do
  let (y, s) ← fixed 4 s
  let s ← after '-' s
  let (m, s) ← fixed 2 s
  let s ← after '-' s
  let (d, s) ← fixed 2 s
  if Calendar.isDay y m d then some s else none

def hourMinute (s : List Char) : Option (List Char) := do
  let (h, s) ← fixed 2 s
  let s ← after ':' s
  let (m, s) ← fixed 2 s
  if h ≤ 23 && m ≤ 59 then some s else none

/-- The characters after a time of day, which may be a leap second and have a fraction. -/
def timeOfDay (s : List Char) : Option (List Char) := do
  let s ← hourMinute s
  let s ← after ':' s
  let (n, s) ← fixed 2 s
  if 60 < n then none
  else match s with
    | '.' :: r => if (r.takeWhile Char.isDigit).isEmpty then none else some (r.dropWhile Char.isDigit)
    | _ => some s

/-- A time of day with an offset or without. -/
def zonedTime (s : List Char) : Bool :=
  match timeOfDay s with
  | none => false
  | some [] => true
  | some (c :: r) =>
    if c = 'Z' || c = 'z' then r.isEmpty
    else if c = '+' || c = '-' then hourMinute r = some []
    else false

def moment? (s : List Char) : Option Value :=
  let ok := timeOfDay s = some [] || match date s with
    | none => false
    | some [] => true
    | some (c :: r) => (c = 'T' || c = 't') && zonedTime r
  if ok then some .moment else none

/-! ## Words -/

def word? (w : List Char) : Option Value :=
  if w = ['t', 'r', 'u', 'e'] then some (.boolean true)
  else if w = ['f', 'a', 'l', 's', 'e'] then some (.boolean false)
  else (moment? w).orElse fun _ => (integer? w).orElse fun _ => real? w

/-- A word; a date may go on after one blank with a time. -/
def scalar (s : List Char) : Reading Value :=
  let w := s.takeWhile isWordChar
  let r := s.dropWhile isWordChar
  match r with
  | ' ' :: d :: t =>
    if date w = some [] && Char.isDigit d then
      if zonedTime ((d :: t).takeWhile isWordChar) then
        some (.moment, (d :: t).dropWhile isWordChar)
      else none
    else (word? w).map (·, r)
  | _ => (word? w).map (·, r)

end LedgerClient.Toml

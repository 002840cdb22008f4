import LedgerClient.Error.CallError
import LedgerClient.Network.Address
import LedgerClient.Text.Blank
/-!
# Endpoints

Where a peer listens, as an `https` address.  Any other scheme is refused; an address without one
gets it.
-/
namespace LedgerClient.Network

def secure : List Char := ['h', 't', 't', 'p', 's']

/-- The address of an endpoint as given by the user. -/
def endpointUri (endpoint : String) : Except ConnectionCause (List Char) :=
  let t := trim endpoint.toList
  if t.isEmpty then .error .blankEndpoint
  else match Text.splitFirst? Text.schemeMark t with
    | none => .ok (secure ++ Text.schemeMark ++ t)
    | some (s, _) => if s = secure then .ok t else .error (.scheme (String.ofList s))

/-! ## Form of an address -/

def isUnreserved (c : Char) : Bool :=
  c.isAlphanum || ['!', '$', '&', '\x27', '(', ')', '*', '+', ',', '-', '.', ';', '=',
    '_', '~'].contains c

/-- What was met in an authority so far: colons since the last closing bracket or at-sign, an
opening and a closing bracket, a percent sign, and whether the last character is an at-sign. -/
structure AuthorityState where
  colons : Nat := 0
  opened : Bool := false
  closed : Bool := false
  percent : Bool := false
  atEnd : Bool := false

def authorityStep (st : AuthorityState) (c : Char) : Option AuthorityState :=
  if c = ':' then
    if 8 ≤ st.colons then none else some { st with colons := st.colons + 1, atEnd := false }
  else if c = '[' then
    if st.percent || st.opened then none else some { st with opened := true, atEnd := false }
  else if c = ']' then
    if !st.opened || st.closed then none
    else some { st with closed := true, colons := 0, percent := false, atEnd := false }
  else if c = '@' then some { st with colons := 0, percent := false, atEnd := true }
  else if c = '%' then some { st with percent := true, atEnd := false }
  else if isUnreserved c then some { st with atEnd := false }
  else none

def authorityOk (s : List Char) : Bool :=
  !s.isEmpty && match s.foldlM authorityStep {} with
    | none => false
    | some st => st.opened == st.closed && st.colons ≤ 1 && !st.atEnd && !st.percent

def endsAuthority (c : Char) : Bool := c = '/' || c = '?' || c = '#'

def isPathChar (c : Char) : Bool :=
  '!' ≤ c && !(['#', '<', '>', '?', '\x60'].contains c)

def isQueryChar (c : Char) : Bool := c = '!' || ('$' ≤ c && c ≠ '<' && c ≠ '>')

/-- Path, query and fragment; nothing is asked of the fragment. -/
def pathOk (s : List Char) : Bool :=
  let path := s.takeWhile fun c => c ≠ '?' && c ≠ '#'
  let rest := s.dropWhile fun c => c ≠ '?' && c ≠ '#'
  path.all isPathChar && match rest with
    | '?' :: r => (r.takeWhile (· ≠ '#')).all isQueryChar
    | _ => true

def maxUri : Nat := 65534

/-- The form of an address, scheme included. -/
def uriOk (uri : List Char) : Bool :=
  let s := uri.drop (secure ++ Text.schemeMark).length
  (String.ofList uri).utf8ByteSize ≤ maxUri
    && authorityOk (s.takeWhile (!endsAuthority ·)) && pathOk (s.dropWhile (!endsAuthority ·))

end LedgerClient.Network

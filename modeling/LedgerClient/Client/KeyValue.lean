import LedgerClient.Client.Invocation
import LedgerClient.Config.Settings
import LedgerClient.Document.Json.Reader
import LedgerClient.Document.Json.Writer
/-!
# Byte keys and values

A view of one contract as a map from bytes to bytes.  The contract itself knows only text, so keys
and values travel as hexadecimal digits, batches and whole maps as JSON objects.  Maps are lists of
pairs in strictly increasing order of their keys.
-/
namespace LedgerClient.KeyValue

open Gateway (Fresh)

abbrev Bytes := List UInt8

/-! ## Maps in order -/

def lt (a b : Bytes) : Bool := a.lex b

section

variable {α β : Type} (less : α → α → Bool)

/-- Puts a pair where it belongs; a pair with the same key gives way. -/
def insert (k : α) (v : β) : List (α × β) → List (α × β)
  | [] => [(k, v)]
  | (a, b) :: r =>
    if less k a then (k, v) :: (a, b) :: r
    else if less a k then (a, b) :: insert k v r
    else (k, v) :: r

/-- The map of some pairs, of which later ones count. -/
def ofPairs (ps : List (α × β)) : List (α × β) :=
  ps.foldl (fun m p => insert less p.1 p.2 m) []

end

abbrev ByteMap := List (Bytes × Bytes)

def ByteMap.ofPairs (ps : List (Bytes × Bytes)) : ByteMap := KeyValue.ofPairs lt ps

/-! ## Contract text -/

/-- The digits of the pairs are a map again, in the order of the digits of their keys. -/
def encodeBatch (m : ByteMap) : Bytes :=
  Utf8.encode (Json.writeCompact (KeyValue.ofPairs (fun a b => decide (a < b))
    (m.map fun p => (Hex.encode p.1, Hex.encode p.2))))

def decodeValue (raw : Bytes) : Except ParseCause Bytes :=
  match Utf8.decode raw with
  | .error f => .error (.valueNotText f)
  | .ok cs => match Hex.decode (Utf8.encode (trim cs)) with
    | .error f => .error (.valueNotHex f)
    | .ok v => .ok v

def decodePair (p : String × String) : Except ParseCause (Bytes × Bytes) :=
  match Hex.decode (utf8 p.1) with
  | .error f => .error (.keyNotHex p.1 f)
  | .ok k => match Hex.decode (utf8 p.2) with
    | .error f => .error (.entryNotHex p.1 f)
    | .ok v => .ok (k, v)

/-- Of equal keys in the text the last counts, before any is taken for digits. -/
def decodeMap (raw : Bytes) : Except ParseCause ByteMap :=
  match Json.readTexts raw with
  | .error f => .error (.notTexts f)
  | .ok ps => match (KeyValue.ofPairs (fun a b => decide (a < b)) ps).mapM decodePair with
    | .error c => .error c
    | .ok bs => .ok (ByteMap.ofPairs bs)

/-! ## The client -/

structure Client where
  profile : Config.Profile
  policy : Policy := {}

def Client.ofSettings (s : Config.Settings) : Client :=
  ⟨s.connection, ⟨s.timeouts, s.keys.strict⟩⟩

namespace Client

def submit (c : Client) (w : Surroundings) (fresh : Fresh) (function : String) (payload : Bytes) :
    Run Unit := do
  let _ ← (Invocation.ofProfile c.profile function payload).write w c.policy fresh

def evaluate (c : Client) (w : Surroundings) (fresh : Fresh) (function : String)
    (payload : Bytes) : Run Bytes :=
  (Invocation.ofProfile c.profile function payload).read w c.policy fresh

/-- Writes every pair in one transaction; a batch without pairs takes none. -/
def put (c : Client) (w : Surroundings) (fresh : Fresh) (batch : ByteMap) : Run Unit :=
  if batch.isEmpty then pure () else c.submit w fresh "put" (encodeBatch batch)

def get (c : Client) (w : Surroundings) (fresh : Fresh) (key : Bytes) : Run Bytes := do
  let raw ← c.evaluate w fresh "get" (Utf8.encode (Hex.encode key))
  Run.ofExcept ((decodeValue raw).mapError .parse)

def getAll (c : Client) (w : Surroundings) (fresh : Fresh) : Run ByteMap := do
  let raw ← c.evaluate w fresh "getAll" (encodeBatch [])
  Run.ofExcept ((decodeMap raw).mapError .parse)

def remove (c : Client) (w : Surroundings) (fresh : Fresh) (key : Bytes) : Run Unit :=
  c.submit w fresh "delete" (Utf8.encode (Hex.encode key))

end Client
end LedgerClient.KeyValue

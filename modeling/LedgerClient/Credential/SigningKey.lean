import LedgerClient.Crypto.KeyForm
import LedgerClient.Error.CallError
/-!
# Signing keys

A key is the first one in its file, in either of the two forms; sections that hold no private key
are passed over.  Signatures have the smaller of the two possible second numbers.
-/
namespace LedgerClient

open P256 (PrivateKey)

namespace SigningKey

/-- What the first item that is a private key or a fault comes to. -/
def firstOf : List (Except Pem.Fault Pem.Item) → Except ParseCause PrivateKey
  | [] => .error .noKey
  | .error f :: _ => .error (.pem f)
  | .ok i :: r => match i.kind with
    | .pkcs8Key => match P256.ofWrapped? i.contents with
      | some k => .ok k
      | none => .error (.wrappedKeyForm i.contents)
    | .ecKey => match P256.ofBare? i.contents with
      | some k => .ok k
      | none => .error (.bareKeyForm i.contents)
    | .rsaKey => .error .rsaKey
    | _ => firstOf r

def ofPem (pem : List UInt8) : Except ParseCause PrivateKey := firstOf (Pem.read pem)

def sign (k : PrivateKey) (digest : List UInt8) : Except CallError (List UInt8) :=
  match Ecdsa.sign? P256.group k.scalar digest with
  | some σ => .ok (σ.lowS P256.group.order).encode
  | none => .error (.identity .signing)

/-- Says nothing of the key. -/
def describe (_ : PrivateKey) : String :=
  "PrivateKeySigner \x7b key: \"<redacted>\" \x7d"

end SigningKey
end LedgerClient

import LedgerClient.Document.Json.Fault
import LedgerClient.Error.Phase
import LedgerClient.Error.RpcCode
import LedgerClient.Text.Hex
import LedgerClient.Text.Pem
/-!
# What can go wrong with a call

An error is a cause inside one of nine kinds.  `message` is the only place where a cause becomes
text, so two errors with one text but different causes stay apart.  What was refused by another
library is kept, and its text ends in that library's words (`Wording`).  `other` holds text of a
cause that arose outside of the library, in a signer for instance.
-/
namespace LedgerClient

/-- Why a file could not be read. -/
inductive IoCause where
  | code (n : Nat)
  | nulInPath
  | notUtf8
  | other (text : String)
deriving DecidableEq, Repr

inductive ParseCause where
  | pem (f : Pem.Fault)
  | noCertificate
  | certificateForm (der : List UInt8)
  | wrappedKeyForm (der : List UInt8)
  | bareKeyForm (der : List UInt8)
  | rsaKey
  | noKey
  | valueNotText (f : Utf8.Fault)
  | valueNotHex (f : Hex.Fault)
  | notTexts (f : Json.Fault)
  | keyNotHex (key : String) (f : Hex.Fault)
  | entryNotHex (key : String) (f : Hex.Fault)
  | other (text : String)
deriving DecidableEq, Repr

inductive ConnectionCause where
  | sessionClosed
  | transportClosed
  | blankEndpoint
  | scheme (s : String)
  | blankServerName
  | uri (uri : String)
  | serverName (name : String)
  | failed (p : Phase) (text : String)
  | other (text : String)
deriving DecidableEq, Repr

inductive IdentityCause where
  | blankMsp
  | signing
  | other (text : String)
deriving DecidableEq, Repr

inductive RemoteCause where
  | noPreparedTransaction
  | noResult
  | invalidated (transaction : String) (code : Int)
  | peerStatus (status : Int) (text : String)
  | rpc (code : RpcCode) (text : String)
  | other (text : String)
deriving DecidableEq, Repr

inductive InputCause where
  | blankNetwork
  | blankContract
  | connectionString (f : Json.Fault)
  | nullPayload (length : Nat)
  | nullArgument (name : String)
  | argumentNotUtf8 (name : String)
  | other (text : String)
deriving DecidableEq, Repr

inductive CallError where
  | io (path : String) (c : IoCause)
  | parse (c : ParseCause)
  | noKeyFound (dir : String)
  | ambiguousKey (dir : String) (count : Nat)
  | connection (c : ConnectionCause)
  | identity (c : IdentityCause)
  | timeout (p : Phase) (secs : Nat)
  | remote (p : Phase) (c : RemoteCause)
  | invalidInput (c : InputCause)
deriving DecidableEq, Repr

/-! ## Texts -/

/-- What other libraries say of that which they refuse. -/
structure Wording where
  certificate : List UInt8 → String
  wrappedKey : List UInt8 → String
  bareKey : List UInt8 → String
  uri : String → String
  serverName : String → String

/-- The system's text for an error number. -/
def IoCause.reason (n : Nat) : String :=
  match n with
  | 1 => "Operation not permitted"
  | 2 => "No such file or directory"
  | 5 => "Input/output error"
  | 13 => "Permission denied"
  | 17 => "File exists"
  | 20 => "Not a directory"
  | 21 => "Is a directory"
  | 36 => "File name too long"
  | 40 => "Too many levels of symbolic links"
  | n => s!"Unknown error {n}"

def IoCause.message : IoCause → String
  | .code n => s!"{reason n} (os error {n})"
  | .nulInPath => "file name contained an unexpected NUL byte"
  | .notUtf8 => "stream did not contain valid UTF-8"
  | .other t => t

def ParseCause.message (words : Wording) : ParseCause → String
  | .pem f => s!"Invalid PEM: {f.message}"
  | .noCertificate => "No CERTIFICATE block found in PEM input"
  | .certificateForm der => s!"X.509 parse failure: {words.certificate der}"
  | .wrappedKeyForm der => s!"Invalid PKCS#8 P-256 key: {words.wrappedKey der}"
  | .bareKeyForm der => s!"Invalid SEC1 P-256 key: {words.bareKey der}"
  | .rsaKey => "RSA private keys are not supported"
  | .noKey => "No PRIVATE KEY block found in PEM input"
  | .valueNotText f => s!"Value is not UTF-8: {f.message}"
  | .valueNotHex f => s!"Value is not hex: {f.message}"
  | .notTexts f => s!"Result is not a JSON object of strings: {f.message}"
  | .keyNotHex k f => s!"Key '{k}' is not hex: {f.message}"
  | .entryNotHex k f => s!"Value for key '{k}' is not hex: {f.message}"
  | .other t => t

def ConnectionCause.message (words : Wording) : ConnectionCause → String
  | .sessionClosed => "Gateway session already closed"
  | .transportClosed => "Transport already closed"
  | .blankEndpoint => "Peer endpoint must not be empty"
  | .scheme s => s!"Unsupported endpoint scheme '{s}', only TLS (https) is allowed"
  | .blankServerName => "Expected peer identity (TLS server name) must not be empty"
  | .uri u => s!"Invalid endpoint '{u}': {words.uri u}"
  | .serverName n => s!"TLS configuration rejected: {words.serverName n}"
  | .failed p t => s!"{p.name} failed: {t}"
  | .other t => t

def IdentityCause.message : IdentityCause → String
  | .blankMsp => "MSP id must not be empty"
  | .signing => "Signing failed: signature error"
  | .other t => t

def RemoteCause.message : RemoteCause → String
  | .noPreparedTransaction => "Gateway returned no prepared transaction"
  | .noResult => "Gateway returned no result"
  | .invalidated t c => s!"Transaction {t} failed to commit with validation code {c}"
  | .peerStatus s t => s!"Peer returned status {s}: {t}"
  | .rpc c t => s!"{c.name}: {t}"
  | .other t => t

def InputCause.message : InputCause → String
  | .blankNetwork => "Network name must not be empty"
  | .blankContract => "Contract name must not be empty"
  | .connectionString f => s!"Invalid connection string: {f.message}"
  | .nullPayload n => s!"payload is null but payload_len is {n}"
  | .nullArgument n => s!"{n} is null"
  | .argumentNotUtf8 n => s!"{n} is not valid UTF-8"
  | .other t => t

namespace CallError

/-- The label of an error in logs and metrics. -/
def kind : CallError → String
  | io .. => "io"
  | parse _ => "parse"
  | noKeyFound _ => "no_key_found"
  | ambiguousKey .. => "ambiguous_key"
  | connection _ => "connection"
  | identity _ => "identity"
  | timeout .. => "timeout"
  | remote .. => "remote"
  | invalidInput _ => "invalid_input"

def message (words : Wording) : CallError → String
  | io p c => s!"IO error on {Text.quoted p}: {c.message}"
  | parse c => s!"Parse error: {c.message words}"
  | noKeyFound d => s!"No private key found in {Text.quoted d}"
  | ambiguousKey d n => s!"Ambiguous key directory {Text.quoted d}: {n} candidate files"
  | connection c => s!"Connection error: {c.message words}"
  | identity c => s!"Identity error: {c.message}"
  | timeout p n => s!"{p.name} timed out after {n} seconds"
  | remote p c => s!"{p.name} rejected by gateway: {c.message}"
  | invalidInput c => s!"Invalid input: {c.message}"

end CallError

/-! ## Status of a finished call -/

def statusSuccess : Nat := 0

def statusFailure : Nat := 1

def CallError.status (_ : CallError) : Nat := statusFailure

end LedgerClient

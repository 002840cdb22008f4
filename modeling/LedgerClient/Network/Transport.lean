import LedgerClient.Credential.Certificate
import LedgerClient.Network.Endpoint
/-!
# Transports

A way to one peer, which has to present the expected name under the one certificate that is
trusted.  Setting it up takes no traffic, so only the form of what is given is checked.
-/
namespace LedgerClient.Network

structure Transport where
  endpoint : String
  serverName : String
  anchor : Certificate
  isOpen : Bool := true

/-- Checks the endpoint, that a name is expected, the form of the address and the form of the
name. -/
def checkTarget (endpoint serverName : String) : Except ConnectionCause String :=
  match endpointUri endpoint with
  | .error c => .error c
  | .ok uri =>
    if IsBlank serverName then .error .blankServerName
    else if !uriOk uri then .error (.uri (String.ofList uri))
    else if !isServerName serverName.toList then .error (.serverName serverName)
    else .ok (String.ofList uri)

namespace Transport

def connect (anchor : Certificate) (endpoint serverName : String) : Except CallError Transport :=
  match checkTarget endpoint serverName with
  | .error c => .error (.connection c)
  | .ok uri => .ok ⟨uri, serverName, anchor, true⟩

def close (t : Transport) : Transport := { t with isOpen := false }

/-- Whether calls can be sent. -/
def channel (t : Transport) : Except CallError Unit :=
  if t.isOpen then .ok () else .error (.connection .transportClosed)

end Transport
end LedgerClient.Network

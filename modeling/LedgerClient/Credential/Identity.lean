import LedgerClient.Credential.Certificate
import LedgerClient.Message.Header
import LedgerClient.Text.Blank
/-!
# Identities

A certificate together with the organisation that vouches for it.
-/
namespace LedgerClient

structure Identity where
  mspId : String
  certificate : Certificate

namespace Identity

def make (mspId : String) (c : Certificate) : Except CallError Identity :=
  if IsBlank mspId then .error (.identity .blankMsp) else .ok ⟨mspId, c⟩

/-- The form in which every proposal names its creator. -/
def serialize (i : Identity) : List UInt8 :=
  Wire.encode ({ mspid := i.mspId, idBytes := i.certificate.pem } : Message.SerializedIdentity)

def describe (i : Identity) : String :=
  "ClientIdentity \x7b msp_id: " ++ Text.quoted i.mspId ++ ", certificate: "
    ++ i.certificate.describe ++ " \x7d"

end Identity
end LedgerClient

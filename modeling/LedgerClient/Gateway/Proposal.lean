import LedgerClient.Crypto.Sha256
import LedgerClient.Message.Proposal
import LedgerClient.Text.Hex
/-!
# Building proposals

A proposal names its creator and a random nonce; the hash of the two is the identifier of the
transaction.  Function and arguments are one list, function first.
-/
namespace LedgerClient.Gateway

open Message

/-- What makes a proposal differ from all others. -/
structure Fresh where
  nonce : List UInt8
  now : Timestamp

structure PreparedProposal where
  transactionId : String
  bytes : List UInt8
deriving DecidableEq

def transactionId (nonce creator : List UInt8) : String := hex (sha256 (nonce ++ creator))

/-- The kind of a transaction signed by its endorsers. -/
def endorserTransaction : Int32 := 3

def channelHeader (channel chaincode txId : String) (now : Timestamp) : ChannelHeader :=
  let extension : ChaincodeHeaderExtension := { chaincodeId := some { name := chaincode } }
  { type := endorserTransaction
    timestamp := some now
    channelId := channel
    txId
    extension := Wire.encode extension }

def invocation (chaincode function : String) (args : List (List UInt8)) :
    ChaincodeInvocationSpec :=
  { chaincodeSpec := some
      { chaincodeId := some { name := chaincode }
        input := some { args := utf8 function :: args } } }

def buildProposal (fresh : Fresh) (creator : List UInt8) (channel chaincode function : String)
    (args : List (List UInt8)) : PreparedProposal :=
  let txId := transactionId fresh.nonce creator
  let header : Header :=
    { channelHeader := Wire.encode (channelHeader channel chaincode txId fresh.now)
      signatureHeader := Wire.encode ({ creator, nonce := fresh.nonce } : SignatureHeader) }
  let payload : ChaincodeProposalPayload :=
    { input := Wire.encode (invocation chaincode function args) }
  let proposal : Proposal := { header := Wire.encode header, payload := Wire.encode payload }
  ⟨txId, Wire.encode proposal⟩

end LedgerClient.Gateway

import LedgerClient.Message.Header
/-!
# Proposals

Which function of which contract is called, with which arguments, and what a peer answers.
-/
namespace LedgerClient.Message

open Wire (Schema Slot)

structure ChaincodeId where
  path : String := ""
  name : String := ""
  version : String := ""
deriving DecidableEq

instance : Schema ChaincodeId where
  empty := {}
  slots :=
    [.text 1 (·.path) fun v m => { m with path := v },
      .text 2 (·.name) fun v m => { m with name := v },
      .text 3 (·.version) fun v m => { m with version := v }]

structure ChaincodeHeaderExtension where
  chaincodeId : Option ChaincodeId := none
deriving DecidableEq

instance : Schema ChaincodeHeaderExtension where
  empty := {}
  slots := [.message 2 (·.chaincodeId) fun v m => { m with chaincodeId := v }]

structure ChaincodeInput where
  args : List (List UInt8) := []
  isInit : Bool := false
deriving DecidableEq

instance : Schema ChaincodeInput where
  empty := {}
  slots :=
    [.byteLists 1 (·.args) fun v m => { m with args := v },
      .bool 3 (·.isInit) fun v m => { m with isInit := v }]

structure ChaincodeSpec where
  type : Int32 := 0
  chaincodeId : Option ChaincodeId := none
  input : Option ChaincodeInput := none
  timeout : Int32 := 0
deriving DecidableEq

instance : Schema ChaincodeSpec where
  empty := {}
  slots :=
    [.int32 1 (·.type) fun v m => { m with type := v },
      .message 2 (·.chaincodeId) fun v m => { m with chaincodeId := v },
      .message 3 (·.input) fun v m => { m with input := v },
      .int32 4 (·.timeout) fun v m => { m with timeout := v }]

structure ChaincodeInvocationSpec where
  chaincodeSpec : Option ChaincodeSpec := none
deriving DecidableEq

instance : Schema ChaincodeInvocationSpec where
  empty := {}
  slots := [.message 1 (·.chaincodeSpec) fun v m => { m with chaincodeSpec := v }]

structure ChaincodeProposalPayload where
  input : List UInt8 := []
deriving DecidableEq

instance : Schema ChaincodeProposalPayload where
  empty := {}
  slots := [.bytes 1 (·.input) fun v m => { m with input := v }]

structure Proposal where
  header : List UInt8 := []
  payload : List UInt8 := []
  extension : List UInt8 := []
deriving DecidableEq

instance : Schema Proposal where
  empty := {}
  slots :=
    [.bytes 1 (·.header) fun v m => { m with header := v },
      .bytes 2 (·.payload) fun v m => { m with payload := v },
      .bytes 3 (·.extension) fun v m => { m with extension := v }]

structure SignedProposal where
  proposalBytes : List UInt8 := []
  signature : List UInt8 := []
deriving DecidableEq

instance : Schema SignedProposal where
  empty := {}
  slots :=
    [.bytes 1 (·.proposalBytes) fun v m => { m with proposalBytes := v },
      .bytes 2 (·.signature) fun v m => { m with signature := v }]

structure Response where
  status : Int32 := 0
  message : String := ""
  payload : List UInt8 := []
deriving DecidableEq

instance : Schema Response where
  empty := {}
  slots :=
    [.int32 1 (·.status) fun v m => { m with status := v },
      .text 2 (·.message) fun v m => { m with message := v },
      .bytes 3 (·.payload) fun v m => { m with payload := v }]

end LedgerClient.Message

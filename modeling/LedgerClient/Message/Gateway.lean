import LedgerClient.Message.Proposal
/-!
# Requests to the gateway and its answers
-/
namespace LedgerClient.Message

open Wire (Schema Slot)

structure EndorseRequest where
  transactionId : String := ""
  channelId : String := ""
  proposedTransaction : Option SignedProposal := none
  endorsingOrganizations : List String := []
deriving DecidableEq

instance : Schema EndorseRequest where
  empty := {}
  slots :=
    [.text 1 (·.transactionId) fun v m => { m with transactionId := v },
      .text 2 (·.channelId) fun v m => { m with channelId := v },
      .message 3 (·.proposedTransaction) fun v m => { m with proposedTransaction := v },
      .texts 4 (·.endorsingOrganizations) fun v m => { m with endorsingOrganizations := v }]

structure EndorseResponse where
  preparedTransaction : Option Envelope := none
deriving DecidableEq

instance : Schema EndorseResponse where
  empty := {}
  slots := [.message 1 (·.preparedTransaction) fun v m => { m with preparedTransaction := v }]

structure SubmitRequest where
  transactionId : String := ""
  channelId : String := ""
  preparedTransaction : Option Envelope := none
deriving DecidableEq

instance : Schema SubmitRequest where
  empty := {}
  slots :=
    [.text 1 (·.transactionId) fun v m => { m with transactionId := v },
      .text 2 (·.channelId) fun v m => { m with channelId := v },
      .message 3 (·.preparedTransaction) fun v m => { m with preparedTransaction := v }]

structure SubmitResponse where
deriving DecidableEq

instance : Schema SubmitResponse where
  empty := {}
  slots := []

structure CommitStatusRequest where
  transactionId : String := ""
  channelId : String := ""
  identity : List UInt8 := []
deriving DecidableEq

instance : Schema CommitStatusRequest where
  empty := {}
  slots :=
    [.text 1 (·.transactionId) fun v m => { m with transactionId := v },
      .text 2 (·.channelId) fun v m => { m with channelId := v },
      .bytes 3 (·.identity) fun v m => { m with identity := v }]

structure SignedCommitStatusRequest where
  request : List UInt8 := []
  signature : List UInt8 := []
deriving DecidableEq

instance : Schema SignedCommitStatusRequest where
  empty := {}
  slots :=
    [.bytes 1 (·.request) fun v m => { m with request := v },
      .bytes 2 (·.signature) fun v m => { m with signature := v }]

structure CommitStatusResponse where
  result : Int32 := 0
  blockNumber : UInt64 := 0
deriving DecidableEq

instance : Schema CommitStatusResponse where
  empty := {}
  slots :=
    [.int32 1 (·.result) fun v m => { m with result := v },
      .uint64 2 (·.blockNumber) fun v m => { m with blockNumber := v }]

structure EvaluateRequest where
  transactionId : String := ""
  channelId : String := ""
  proposedTransaction : Option SignedProposal := none
  targetOrganizations : List String := []
deriving DecidableEq

instance : Schema EvaluateRequest where
  empty := {}
  slots :=
    [.text 1 (·.transactionId) fun v m => { m with transactionId := v },
      .text 2 (·.channelId) fun v m => { m with channelId := v },
      .message 3 (·.proposedTransaction) fun v m => { m with proposedTransaction := v },
      .texts 4 (·.targetOrganizations) fun v m => { m with targetOrganizations := v }]

structure EvaluateResponse where
  result : Option Response := none
deriving DecidableEq

instance : Schema EvaluateResponse where
  empty := {}
  slots := [.message 1 (·.result) fun v m => { m with result := v }]

end LedgerClient.Message

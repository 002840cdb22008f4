import LedgerClient.Wire.Schema
/-!
# Headers of a transaction

Who asks, for which channel, when, and under which identifier.
-/
namespace LedgerClient.Message

open Wire (Schema Slot)

structure Timestamp where
  seconds : Int64 := 0
  nanos : Int32 := 0
deriving DecidableEq

instance : Schema Timestamp where
  empty := {}
  slots :=
    [.int64 1 (·.seconds) fun v m => { m with seconds := v },
      .int32 2 (·.nanos) fun v m => { m with nanos := v }]

structure SerializedIdentity where
  mspid : String := ""
  idBytes : List UInt8 := []
deriving DecidableEq

instance : Schema SerializedIdentity where
  empty := {}
  slots :=
    [.text 1 (·.mspid) fun v m => { m with mspid := v },
      .bytes 2 (·.idBytes) fun v m => { m with idBytes := v }]

structure ChannelHeader where
  type : Int32 := 0
  version : Int32 := 0
  timestamp : Option Timestamp := none
  channelId : String := ""
  txId : String := ""
  epoch : UInt64 := 0
  extension : List UInt8 := []
  tlsCertHash : List UInt8 := []
deriving DecidableEq

instance : Schema ChannelHeader where
  empty := {}
  slots :=
    [.int32 1 (·.type) fun v m => { m with type := v },
      .int32 2 (·.version) fun v m => { m with version := v },
      .message 3 (·.timestamp) fun v m => { m with timestamp := v },
      .text 4 (·.channelId) fun v m => { m with channelId := v },
      .text 5 (·.txId) fun v m => { m with txId := v },
      .uint64 6 (·.epoch) fun v m => { m with epoch := v },
      .bytes 7 (·.extension) fun v m => { m with extension := v },
      .bytes 8 (·.tlsCertHash) fun v m => { m with tlsCertHash := v }]

structure SignatureHeader where
  creator : List UInt8 := []
  nonce : List UInt8 := []
deriving DecidableEq

instance : Schema SignatureHeader where
  empty := {}
  slots :=
    [.bytes 1 (·.creator) fun v m => { m with creator := v },
      .bytes 2 (·.nonce) fun v m => { m with nonce := v }]

structure Header where
  channelHeader : List UInt8 := []
  signatureHeader : List UInt8 := []
deriving DecidableEq

instance : Schema Header where
  empty := {}
  slots :=
    [.bytes 1 (·.channelHeader) fun v m => { m with channelHeader := v },
      .bytes 2 (·.signatureHeader) fun v m => { m with signatureHeader := v }]

/-- What is handed to ordering. -/
structure Envelope where
  payload : List UInt8 := []
  signature : List UInt8 := []
deriving DecidableEq

instance : Schema Envelope where
  empty := {}
  slots :=
    [.bytes 1 (·.payload) fun v m => { m with payload := v },
      .bytes 2 (·.signature) fun v m => { m with signature := v }]

end LedgerClient.Message

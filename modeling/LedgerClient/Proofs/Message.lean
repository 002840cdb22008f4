import LedgerClient.Message.Gateway
import LedgerClient.Proofs.Wire.Schema
/-!
# The messages of a transaction

Every type of messages is lawful, so what is written of it is read back (`messages_read_back`), also when the bytes
hold fields that the type does not declare.  That is why fields nobody here needs can be left out of a type.
-/
namespace LedgerClient.Message

open Wire (Schema Slot Lawful Carried)

instance : Lawful Timestamp where
  depth := 0
  nodup := by decide
  number := by decide
  carried _ _ _ := .cons (Slot.int64_carries rfl) (.cons (Slot.int32_carries rfl) .nil)

instance : Lawful SerializedIdentity where
  depth := 0
  nodup := by decide
  number := by decide
  carried _ _ _ := .cons (Slot.text_carries rfl) (.cons (Slot.bytes_carries rfl) .nil)

instance : Lawful ChannelHeader where
  depth := 1
  nodup := by decide
  number := by decide
  carried _ _ h :=
    .cons (Slot.int32_carries rfl) <| .cons (Slot.int32_carries rfl) <| .cons (Slot.message_carries rfl rfl h) <|
      .cons (Slot.text_carries rfl) <| .cons (Slot.text_carries rfl) <| .cons (Slot.uint64_carries rfl) <|
      .cons (Slot.bytes_carries rfl) <| .cons (Slot.bytes_carries rfl) .nil

instance : Lawful SignatureHeader where
  depth := 0
  nodup := by decide
  number := by decide
  carried _ _ _ := .cons (Slot.bytes_carries rfl) (.cons (Slot.bytes_carries rfl) .nil)

instance : Lawful Header where
  depth := 0
  nodup := by decide
  number := by decide
  carried _ _ _ := .cons (Slot.bytes_carries rfl) (.cons (Slot.bytes_carries rfl) .nil)

instance : Lawful Envelope where
  depth := 0
  nodup := by decide
  number := by decide
  carried _ _ _ := .cons (Slot.bytes_carries rfl) (.cons (Slot.bytes_carries rfl) .nil)

/-! ## Proposals -/

instance : Lawful ChaincodeId where
  depth := 0
  nodup := by decide
  number := by decide
  carried _ _ _ :=
    .cons (Slot.text_carries rfl) (.cons (Slot.text_carries rfl) (.cons (Slot.text_carries rfl) .nil))

instance : Lawful ChaincodeHeaderExtension where
  depth := 1
  nodup := by decide
  number := by decide
  carried _ _ h := .cons (Slot.message_carries rfl rfl h) .nil

instance : Lawful ChaincodeInput where
  depth := 0
  nodup := by decide
  number := by decide
  carried _ _ _ :=
    .cons (Slot.byteLists_carries rfl rfl (fun _ _ => rfl) fun _ _ _ => rfl) (.cons (Slot.bool_carries rfl) .nil)

instance : Lawful ChaincodeSpec where
  depth := 1
  nodup := by decide
  number := by decide
  carried _ _ h :=
    .cons (Slot.int32_carries rfl) <| .cons (Slot.message_carries rfl rfl h) <|
      .cons (Slot.message_carries rfl rfl h) <| .cons (Slot.int32_carries rfl) .nil

instance : Lawful ChaincodeInvocationSpec where
  depth := 2
  nodup := by decide
  number := by decide
  carried _ _ h := .cons (Slot.message_carries rfl rfl h) .nil

instance : Lawful ChaincodeProposalPayload where
  depth := 0
  nodup := by decide
  number := by decide
  carried _ _ _ := .cons (Slot.bytes_carries rfl) .nil

instance : Lawful Proposal where
  depth := 0
  nodup := by decide
  number := by decide
  carried _ _ _ :=
    .cons (Slot.bytes_carries rfl) (.cons (Slot.bytes_carries rfl) (.cons (Slot.bytes_carries rfl) .nil))

instance : Lawful SignedProposal where
  depth := 0
  nodup := by decide
  number := by decide
  carried _ _ _ := .cons (Slot.bytes_carries rfl) (.cons (Slot.bytes_carries rfl) .nil)

instance : Lawful Response where
  depth := 0
  nodup := by decide
  number := by decide
  carried _ _ _ :=
    .cons (Slot.int32_carries rfl) (.cons (Slot.text_carries rfl) (.cons (Slot.bytes_carries rfl) .nil))

/-! ## Requests and answers -/

instance : Lawful EndorseRequest where
  depth := 1
  nodup := by decide
  number := by decide
  carried _ _ h :=
    .cons (Slot.text_carries rfl) <| .cons (Slot.text_carries rfl) <| .cons (Slot.message_carries rfl rfl h) <|
      .cons (Slot.texts_carries rfl rfl (fun _ _ => rfl) fun _ _ _ => rfl) .nil

instance : Lawful EndorseResponse where
  depth := 1
  nodup := by decide
  number := by decide
  carried _ _ h := .cons (Slot.message_carries rfl rfl h) .nil

instance : Lawful SubmitRequest where
  depth := 1
  nodup := by decide
  number := by decide
  carried _ _ h :=
    .cons (Slot.text_carries rfl) (.cons (Slot.text_carries rfl) (.cons (Slot.message_carries rfl rfl h) .nil))

instance : Lawful SubmitResponse where
  depth := 0
  nodup := by decide
  number := by decide
  carried _ _ _ := .nil

instance : Lawful CommitStatusRequest where
  depth := 0
  nodup := by decide
  number := by decide
  carried _ _ _ :=
    .cons (Slot.text_carries rfl) (.cons (Slot.text_carries rfl) (.cons (Slot.bytes_carries rfl) .nil))

instance : Lawful SignedCommitStatusRequest where
  depth := 0
  nodup := by decide
  number := by decide
  carried _ _ _ := .cons (Slot.bytes_carries rfl) (.cons (Slot.bytes_carries rfl) .nil)

instance : Lawful CommitStatusResponse where
  depth := 0
  nodup := by decide
  number := by decide
  carried _ _ _ := .cons (Slot.int32_carries rfl) (.cons (Slot.uint64_carries rfl) .nil)

instance : Lawful EvaluateRequest where
  depth := 1
  nodup := by decide
  number := by decide
  carried _ _ h :=
    .cons (Slot.text_carries rfl) <| .cons (Slot.text_carries rfl) <| .cons (Slot.message_carries rfl rfl h) <|
      .cons (Slot.texts_carries rfl rfl (fun _ _ => rfl) fun _ _ _ => rfl) .nil

instance : Lawful EvaluateResponse where
  depth := 1
  nodup := by decide
  number := by decide
  carried _ _ h := .cons (Slot.message_carries rfl rfl h) .nil

/-! ## All of them -/

/-- A message is read back, whatever foreign fields stand before, between and after its own. -/
def ReadBack (α : Type) [Schema α] : Prop :=
  ∀ (m : α) (bs : List UInt8), (Wire.encode m).length < UInt64.size →
    Wire.Interspersed (Wire.numbers α) (Wire.fieldsOf m) bs → Wire.decode bs = some m

theorem readBack_of_lawful {α : Type} [Schema α] [Lawful α] (hd : Lawful.depth α ≤ Wire.depthLimit) : ReadBack α :=
  fun _ _ h hbs => Wire.merge_interspersed hd h hbs

/-- **Messages of every type are read back**, foreign fields or not. -/
theorem messages_read_back :
    ReadBack Timestamp ∧ ReadBack SerializedIdentity ∧ ReadBack ChannelHeader ∧ ReadBack SignatureHeader ∧
    ReadBack Header ∧ ReadBack Envelope ∧ ReadBack ChaincodeId ∧ ReadBack ChaincodeHeaderExtension ∧
    ReadBack ChaincodeInput ∧ ReadBack ChaincodeSpec ∧ ReadBack ChaincodeInvocationSpec ∧
    ReadBack ChaincodeProposalPayload ∧ ReadBack Proposal ∧ ReadBack SignedProposal ∧ ReadBack Response ∧
    ReadBack EndorseRequest ∧ ReadBack EndorseResponse ∧ ReadBack SubmitRequest ∧ ReadBack SubmitResponse ∧
    ReadBack CommitStatusRequest ∧ ReadBack SignedCommitStatusRequest ∧ ReadBack CommitStatusResponse ∧
    ReadBack EvaluateRequest ∧ ReadBack EvaluateResponse := by
  refine ⟨?_, ?_, ?_, ?_, ?_, ?_, ?_, ?_, ?_, ?_, ?_, ?_, ?_, ?_, ?_, ?_, ?_, ?_, ?_, ?_, ?_, ?_, ?_, ?_⟩
  all_goals exact readBack_of_lawful (by decide)

/-! A transaction in the last block, found to be bad: foreign fields of all four kinds stand around its two own, one of
them with a key and a number of more bytes than they need. -/

def lastBlock : CommitStatusResponse := { result := -1, blockNumber := 0xFFFFFFFFFFFFFFFF }

def crowded : List UInt8 :=
  [0x98, 0x00, 0x85, 0x80, 0x00] ++ (Wire.Field.encode ⟨1, .varint 0xFFFFFFFFFFFFFFFF⟩
    ++ (Wire.Field.encode ⟨9, .fixed64 [1, 2, 3, 4, 5, 6, 7, 8]⟩ ++ (Wire.Field.encode ⟨2, .varint 0xFFFFFFFFFFFFFFFF⟩
    ++ (Wire.Field.encode ⟨4, .bytes [0x08, 0x00]⟩ ++ (Wire.Field.encode ⟨0x1FFFFFFF, .fixed32 [0, 0, 0, 0]⟩ ++ [])))))

theorem crowded_interspersed :
    Wire.Interspersed (Wire.numbers CommitStatusResponse) (Wire.fieldsOf lastBlock) crowded := by
  have hlong : Wire.Field.Spelled ⟨3, .varint 5⟩ ([0x98, 0x00] ++ [0x85, 0x80, 0x00]) :=
    .mk (by decide) (by decide) ⟨.more (b := 0x98) (by decide) (.last (b := 0x00) (by decide)), by decide, by decide⟩
      (.varint ⟨.more (b := 0x85) (by decide) (.more (b := 0x80) (by decide) (.last (b := 0x00) (by decide))),
        by decide, by decide⟩)
  refine .foreign (by decide) hlong (.own ?_)
  refine .foreign (by decide) (Wire.Field.spelled_encode ⟨by decide, by decide, rfl⟩) (.own ?_)
  refine .foreign (by decide) (Wire.Field.spelled_encode ⟨by decide, by decide, show 2 < UInt64.size by decide⟩) ?_
  exact .foreign (by decide) (Wire.Field.spelled_encode ⟨by decide, by decide, rfl⟩) .nil

theorem messages_read_back_crowded :
    (Wire.encode lastBlock).length < UInt64.size ∧ Wire.decode crowded = some lastBlock := by
  have h : ReadBack CommitStatusResponse := by
    obtain ⟨-, -, -, -, -, -, -, -, -, -, -, -, -, -, -, -, -, -, -, -, -, h, -, -⟩ := messages_read_back
    exact h
  have hl : (Wire.encode lastBlock).length < UInt64.size := by decide
  exact ⟨hl, h lastBlock crowded hl crowded_interspersed⟩

end LedgerClient.Message

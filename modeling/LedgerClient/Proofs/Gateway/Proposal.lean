import LedgerClient.Gateway.Proposal
import LedgerClient.Proofs.Message
/-!
# What a proposal says

A proposal is seven messages that stand in one another as bytes.  They are all read back (`nested_buildProposal`), and
they say what the proposal was built for and nothing else (`Layers.Say`); so its bytes tell all of that
(`buildProposal_read_back`).
-/
namespace LedgerClient.Gateway

open Message

/-- The messages that stand in one another in a proposal. -/
structure Layers where
  proposal : Proposal
  header : Header
  channelHeader : ChannelHeader
  extension : ChaincodeHeaderExtension
  signatureHeader : SignatureHeader
  payload : ChaincodeProposalPayload
  invocation : ChaincodeInvocationSpec
deriving DecidableEq

namespace Layers

/-- Reads one message out of the other. -/
def read? (bytes : List UInt8) : Option Layers := do
  let proposal ← Wire.decode bytes
  let header ← Wire.decode (α := Header) proposal.header
  let channelHeader ← Wire.decode header.channelHeader
  let extension ← Wire.decode (α := ChaincodeHeaderExtension) channelHeader.extension
  let signatureHeader ← Wire.decode header.signatureHeader
  let payload ← Wire.decode proposal.payload
  let invocation ← Wire.decode payload.input
  some { proposal, header, channelHeader, extension, signatureHeader, payload, invocation }

/-- The layers say this of a proposal, and hold defaults for all else. -/
structure Say (l : Layers) (tx : String) (fresh : Fresh) (creator : List UInt8) (channel chaincode function : String)
    (args : List (List UInt8)) : Prop where
  channelHeader : l.channelHeader =
    { type := 3, timestamp := some fresh.now, channelId := channel, txId := tx, extension := l.channelHeader.extension }
  extension : l.extension = { chaincodeId := some { name := chaincode } }
  signatureHeader : l.signatureHeader = { creator := creator, nonce := fresh.nonce }
  invocation : l.invocation =
    { chaincodeSpec := some
        { chaincodeId := some { name := chaincode }, input := some { args := utf8 function :: args, isInit := false } } }
  rest : l.proposal.extension = []

/-- The bytes hold the first message, and each message holds the bytes of the next. -/
structure Nested (l : Layers) (bytes : List UInt8) : Prop where
  proposal : Wire.decode bytes = some l.proposal
  header : Wire.decode l.proposal.header = some l.header
  channelHeader : Wire.decode l.header.channelHeader = some l.channelHeader
  extension : Wire.decode l.channelHeader.extension = some l.extension
  signatureHeader : Wire.decode l.header.signatureHeader = some l.signatureHeader
  payload : Wire.decode l.proposal.payload = some l.payload
  invocation : Wire.decode l.payload.input = some l.invocation

theorem Nested.read? {l : Layers} {bytes : List UInt8} (h : l.Nested bytes) : Layers.read? bytes = some l := by
  simp only [Layers.read?, h.proposal, h.header, h.channelHeader, h.extension, h.signatureHeader, h.payload,
    h.invocation, Option.bind_eq_bind, Option.bind_some]

variable {l : Layers} {tx tx' : String} {fresh fresh' : Fresh} {creator creator' : List UInt8}
  {channel channel' chaincode chaincode' function function' : String} {args args' : List (List UInt8)}

/-- Layers say one thing. -/
theorem Say.unique (h : l.Say tx fresh creator channel chaincode function args)
    (h' : l.Say tx' fresh' creator' channel' chaincode' function' args') :
    fresh = fresh' ∧ creator = creator' ∧ channel = channel' ∧ chaincode = chaincode' ∧ function = function' ∧
      args = args' := by
  have hc := h.channelHeader.symm.trans h'.channelHeader
  have hs := h.signatureHeader.symm.trans h'.signatureHeader
  have hi := h.invocation.symm.trans h'.invocation
  simp only [ChannelHeader.mk.injEq, Option.some.injEq] at hc
  simp only [SignatureHeader.mk.injEq] at hs
  simp only [ChaincodeInvocationSpec.mk.injEq, Option.some.injEq, ChaincodeSpec.mk.injEq, ChaincodeId.mk.injEq,
    ChaincodeInput.mk.injEq, List.cons.injEq] at hi
  obtain ⟨-, -, hnow, hchannel, -⟩ := hc
  obtain ⟨hcreator, hnonce⟩ := hs
  obtain ⟨-, ⟨-, hchaincode, -⟩, ⟨⟨hfunction, hargs⟩, -⟩, -⟩ := hi
  refine ⟨?_, hcreator, hchannel, hchaincode, utf8_inj hfunction, hargs⟩
  cases fresh
  cases fresh'
  simp only [Fresh.mk.injEq]
  exact ⟨hnonce, hnow⟩

end Layers

variable (fresh : Fresh) (creator : List UInt8) (channel chaincode function : String) (args : List (List UInt8))

/-- **The layers of a proposal are read back**, if it is not longer than anything can be. -/
theorem nested_buildProposal
    (h : (buildProposal fresh creator channel chaincode function args).bytes.length < UInt64.size) :
    ∃ l : Layers, l.Nested (buildProposal fresh creator channel chaincode function args).bytes ∧
      l.Say (transactionId fresh.nonce creator) fresh creator channel chaincode function args := by
  simp only [buildProposal] at h ⊢
  have hh := Nat.lt_of_le_of_lt (Wire.length_bytes_le (.head _) _) h
  have hc := Nat.lt_of_le_of_lt (Wire.length_bytes_le (.head _) _) hh
  have hx := Nat.lt_of_le_of_lt
    (Wire.length_bytes_le (.tail _ (.tail _ (.tail _ (.tail _ (.tail _ (.tail _ (.head _))))))) _) hc
  have hs := Nat.lt_of_le_of_lt (Wire.length_bytes_le (.tail _ (.head _)) _) hh
  have hp := Nat.lt_of_le_of_lt (Wire.length_bytes_le (.tail _ (.head _)) _) h
  have hi := Nat.lt_of_le_of_lt (Wire.length_bytes_le (.head _) _) hp
  refine ⟨⟨_, _, _, _, _, _, _⟩, ⟨Wire.decode_encode (by decide) h, Wire.decode_encode (by decide) hh,
    Wire.decode_encode (by decide) hc, Wire.decode_encode (by decide) hx, Wire.decode_encode (by decide) hs,
    Wire.decode_encode (by decide) hp, Wire.decode_encode (by decide) hi⟩, ?_⟩
  exact ⟨rfl, rfl, rfl, rfl, rfl⟩

/-- **A proposal tells all it was built for**: layer by layer it is read back, with the transaction it is for, and
proposals of the same bytes were built for the same. -/
theorem buildProposal_read_back
    (h : (buildProposal fresh creator channel chaincode function args).bytes.length < UInt64.size) :
    let p := buildProposal fresh creator channel chaincode function args
    p.transactionId = hex (sha256 (fresh.nonce ++ creator)) ∧
    (∃ l, Layers.read? p.bytes = some l ∧ l.Say p.transactionId fresh creator channel chaincode function args) ∧
    ∀ fresh' creator' channel' chaincode' function' args',
      (buildProposal fresh' creator' channel' chaincode' function' args').bytes = p.bytes →
        fresh' = fresh ∧ creator' = creator ∧ channel' = channel ∧ chaincode' = chaincode ∧ function' = function ∧
          args' = args := by
  intro p
  obtain ⟨l, hl, hs⟩ := nested_buildProposal fresh creator channel chaincode function args h
  refine ⟨rfl, ⟨l, hl.read?, hs⟩, fun fresh' creator' channel' chaincode' function' args' he => ?_⟩
  obtain ⟨l', hl', hs'⟩ := nested_buildProposal fresh' creator' channel' chaincode' function' args' (by rwa [he])
  have hll : some l' = some l := by rw [← hl'.read?, he, hl.read?]
  cases hll
  exact hs'.unique hs

/-! A proposal for a function without a name, with an argument that holds nothing. -/

theorem buildProposal_read_back_empty :
    (buildProposal ⟨List.replicate 24 7, {}⟩ [1] "" "é" "" [[], [0xFF]]).bytes.length < UInt64.size ∧
      ∃ l, Layers.read? (buildProposal ⟨List.replicate 24 7, {}⟩ [1] "" "é" "" [[], [0xFF]]).bytes = some l ∧
        l.signatureHeader = { creator := [1], nonce := List.replicate 24 7 } ∧
        l.invocation = ⟨some { chaincodeId := some { name := "é" }, input := some ⟨[[], [], [0xFF]], false⟩ }⟩ := by
  have h : (buildProposal ⟨List.replicate 24 7, {}⟩ [1] "" "é" "" [[], [0xFF]]).bytes.length < UInt64.size := by
    decide +kernel
  obtain ⟨_, ⟨l, hl, hs⟩, _⟩ := buildProposal_read_back ⟨List.replicate 24 7, {}⟩ [1] "" "é" "" [[], [0xFF]] h
  exact ⟨h, l, hl, hs.signatureHeader, hs.invocation⟩

end LedgerClient.Gateway

import LedgerClient.Text.Utf8
import LedgerClient.Wire.Field
/-!
# Messages

A message type is a list of slots, one for each field it knows.  A slot says which payloads a
message writes for its field and what a payload read for it does to the message.  Defaults are not
written; fields of other numbers are skipped; of a plain field read twice the last counts, lists
grow, and messages inside are merged.
-/
namespace LedgerClient.Wire

structure Slot (α : Type) where
  number : Nat
  emit : α → List Payload
  /-- The first argument is the depth that messages inside may still have. -/
  absorb : Nat → Payload → α → Option α

class Schema (α : Type) where
  empty : α
  slots : List (Slot α)

/-- Messages and groups may stand in one another this deep. -/
def depthLimit : Nat := 100

variable {α β : Type}

def fieldsOf [Schema α] (m : α) : List Field :=
  (Schema.slots : List (Slot α)).flatMap fun s => (s.emit m).map (⟨s.number, ·⟩)

def encode [Schema α] (m : α) : List UInt8 := encodeFields (fieldsOf m)

def absorbField [Schema α] (limit : Nat) (m : α) (f : Field) : Option α :=
  match (Schema.slots : List (Slot α)).find? (·.number = f.number) with
  | none => some m
  | some s => s.absorb limit f.payload m

/-- Reads the fields in `bs` into `m`. -/
def merge [Schema α] (limit : Nat) (bs : List UInt8) (m : α) : Option α :=
  match readFields limit bs with
  | none => none
  | some fs => fs.foldlM (absorbField limit) m

def decode [Schema α] (bs : List UInt8) : Option α := merge depthLimit bs Schema.empty

/-! ## Kinds of slots

Each takes the number of its field, how to get its value out of a message and how to put it in. -/

namespace Slot

def omitIf (c : Bool) (p : Payload) : List Payload := if c then [] else [p]

def text (n : Nat) (get : α → String) (put : String → α → α) : Slot α where
  number := n
  emit m := omitIf (get m).isEmpty (.bytes (utf8 (get m)))
  absorb
    | _, .bytes bs, m => match text? bs with
      | .ok s => some (put s m)
      | .error _ => none
    | _, _, _ => none

def texts (n : Nat) (get : α → List String) (put : List String → α → α) : Slot α where
  number := n
  emit m := (get m).map fun s => .bytes (utf8 s)
  absorb
    | _, .bytes bs, m => match text? bs with
      | .ok s => some (put (get m ++ [s]) m)
      | .error _ => none
    | _, _, _ => none

def bytes (n : Nat) (get : α → List UInt8) (put : List UInt8 → α → α) : Slot α where
  number := n
  emit m := omitIf (get m).isEmpty (.bytes (get m))
  absorb
    | _, .bytes bs, m => some (put bs m)
    | _, _, _ => none

def byteLists (n : Nat) (get : α → List (List UInt8)) (put : List (List UInt8) → α → α) :
    Slot α where
  number := n
  emit m := (get m).map .bytes
  absorb
    | _, .bytes bs, m => some (put (get m ++ [bs]) m)
    | _, _, _ => none

/-- Numbers of 32 bits are written with 64, so negative ones take ten bytes. -/
def int32 (n : Nat) (get : α → Int32) (put : Int32 → α → α) : Slot α where
  number := n
  emit m := omitIf (get m = 0) (.varint (get m).toInt64.toUInt64.toNat)
  absorb
    | _, .varint v, m => some (put (UInt32.ofNat v).toInt32 m)
    | _, _, _ => none

def int64 (n : Nat) (get : α → Int64) (put : Int64 → α → α) : Slot α where
  number := n
  emit m := omitIf (get m = 0) (.varint (get m).toUInt64.toNat)
  absorb
    | _, .varint v, m => some (put (UInt64.ofNat v).toInt64 m)
    | _, _, _ => none

def uint64 (n : Nat) (get : α → UInt64) (put : UInt64 → α → α) : Slot α where
  number := n
  emit m := omitIf (get m = 0) (.varint (get m).toNat)
  absorb
    | _, .varint v, m => some (put (UInt64.ofNat v) m)
    | _, _, _ => none

def bool (n : Nat) (get : α → Bool) (put : Bool → α → α) : Slot α where
  number := n
  emit m := omitIf (!get m) (.varint 1)
  absorb
    | _, .varint v, m => some (put (v ≠ 0) m)
    | _, _, _ => none

/-- A message that is there is written even if it is empty. -/
def message [Schema β] (n : Nat) (get : α → Option β) (put : Option β → α → α) : Slot α where
  number := n
  emit m := (get m).toList.map fun b => .bytes (encode b)
  absorb
    | 0, _, _ => none
    | k + 1, .bytes bs, m =>
      (merge k bs ((get m).getD Schema.empty)).map fun b => put (some b) m
    | _, _, _ => none

end Slot
end LedgerClient.Wire

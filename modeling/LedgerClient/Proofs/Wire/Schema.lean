import LedgerClient.Proofs.Text.Utf8
import LedgerClient.Proofs.Wire.Field
import LedgerClient.Wire.Schema
/-!
# Messages that are written are read back

A slot reads what it wrote: the payloads it emits for a message bring its field, and nothing else, into a message that
does not have it yet (`Slot.Carries`).  A type is `Lawful` if its slots do so one after the other, from the empty
message on; its messages are read back as they were written (`decode_encode`), and foreign fields among their own make
no difference (`merge_interspersed`).
-/
namespace LedgerClient.Wire

variable {α β : Type}

/-- The payloads there are in messages: numbers of 64 bits, and bytes. -/
def Payload.Plain : Payload → Prop
  | .varint n => n < UInt64.size
  | .bytes _ => True
  | _ => False

/-- What a slot writes for `m` is plain, and makes `a` into `b` when it is read; lengths have 64 bits. -/
structure Slot.Carries (s : Slot α) (limit : Nat) (m a b : α) : Prop where
  plain : ∀ p ∈ s.emit m, p.Plain
  copies : (∀ bs, .bytes bs ∈ s.emit m → bs.length < UInt64.size) →
    (s.emit m).foldlM (fun x p => s.absorb limit p x) a = some b

/-- Slots that carry the fields of `m`, one after the other, from `a` on. -/
inductive Carried (limit : Nat) (m : α) : List (Slot α) → α → α → Prop where
  | nil {a : α} : Carried limit m [] a a
  | cons {s : Slot α} {ss : List (Slot α)} {a b c : α} (h : s.Carries limit m a b) (hs : Carried limit m ss b c) :
      Carried limit m (s :: ss) a c

/-- A type of messages whose slots carry all of a message. -/
class Lawful (α : Type) [Schema α] where
  /-- How deep messages stand in one another. -/
  depth : Nat
  nodup : ((Schema.slots : List (Slot α)).map (·.number)).Nodup
  number : ∀ n ∈ (Schema.slots : List (Slot α)).map (·.number), 1 ≤ n ∧ n < 0x20000000
  carried : ∀ (limit : Nat) (m : α), depth ≤ limit → Carried limit m Schema.slots Schema.empty m

/-! ## Reading back -/

theorem Carried.plain {limit : Nat} {m a b : α} {ss : List (Slot α)} (h : Carried limit m ss a b) :
    ∀ s ∈ ss, ∀ p ∈ s.emit m, p.Plain := by
  induction h with
  | nil => exact fun s hs => by cases hs
  | cons h _ ih =>
    intro s hs
    rcases List.mem_cons.1 hs with rfl | hs
    · exact h.plain
    · exact ih s hs

theorem find?_number {s : Slot α} : ∀ {ss : List (Slot α)}, (ss.map (·.number)).Nodup → s ∈ ss →
    ss.find? (·.number = s.number) = some s
  | t :: ss, hn, hs => by
    rw [List.map_cons, List.nodup_cons] at hn
    rcases List.mem_cons.1 hs with rfl | hs
    · exact List.find?_cons_of_pos (decide_eq_true rfl)
    · have hne : t.number ≠ s.number := fun he => hn.1 (he ▸ List.mem_map_of_mem hs)
      rw [List.find?_cons_of_neg (by rw [decide_eq_true_eq]; exact hne), find?_number hn.2 hs]

/-- The numbers of the fields that a type declares. -/
def numbers (α : Type) [Schema α] : List Nat := (Schema.slots : List (Slot α)).map (·.number)

section Lawful

variable [Schema α] [Lawful α]

/-- The payloads of a slot are read by it. -/
theorem foldlM_absorbField {s : Slot α} (h : s ∈ (Schema.slots : List (Slot α))) (limit : Nat) (ps : List Payload)
    (a : α) :
    (ps.map (⟨s.number, ·⟩)).foldlM (absorbField limit) a = ps.foldlM (fun x p => s.absorb limit p x) a := by
  rw [List.foldlM_map]
  congr 1
  funext x p
  simp only [absorbField, find?_number Lawful.nodup h]

theorem Carried.foldlM {limit : Nat} {m a b : α} {ss : List (Slot α)} (h : Carried limit m ss a b)
    (hss : ∀ s ∈ ss, s ∈ (Schema.slots : List (Slot α)))
    (hl : ∀ s ∈ ss, ∀ bs, .bytes bs ∈ s.emit m → bs.length < UInt64.size) :
    (ss.flatMap fun s => (s.emit m).map (⟨s.number, ·⟩)).foldlM (absorbField limit) a = some b := by
  induction h with
  | nil => rfl
  | @cons s ss a b c h _ ih =>
    rw [List.flatMap_cons, List.foldlM_append, foldlM_absorbField (hss s List.mem_cons_self),
      h.copies (hl s List.mem_cons_self)]
    exact ih (fun s hs => hss s (List.mem_cons_of_mem _ hs)) fun s hs => hl s (List.mem_cons_of_mem _ hs)

omit [Lawful α] in
/-- What stands in a message is no longer than the message. -/
theorem length_le_encode {m : α} {number : Nat} {bs : List UInt8} (h : ⟨number, .bytes bs⟩ ∈ fieldsOf m) :
    bs.length ≤ (encode m).length := by
  obtain ⟨fs, gs, hfs⟩ := List.append_of_mem h
  rw [encode, hfs, encodeFields, List.flatMap_append, List.flatMap_cons]
  simp only [List.length_append, Field.encode, Payload.encode]
  omega

omit [Lawful α] in
theorem mem_fieldsOf {m : α} {f : Field} :
    f ∈ fieldsOf m ↔ ∃ s ∈ (Schema.slots : List (Slot α)), ∃ p ∈ s.emit m, f = ⟨s.number, p⟩ := by
  simp only [fieldsOf, List.mem_flatMap, List.mem_map, eq_comm]

theorem fits_fieldsOf {m : α} (h : (encode m).length < UInt64.size) : ∀ f ∈ fieldsOf m, f.Fits := by
  intro f hf
  obtain ⟨s, hs, p, hp, rfl⟩ := mem_fieldsOf.1 hf
  obtain ⟨h₁, h₂⟩ := Lawful.number s.number (List.mem_map_of_mem hs)
  refine ⟨h₁, h₂, ?_⟩
  have hplain := (Lawful.carried (Lawful.depth α) m (Nat.le_refl _)).plain s hs p hp
  cases p with
  | varint n => exact hplain
  | bytes bs => exact Nat.lt_of_le_of_lt (length_le_encode hf) h
  | fixed64 | group | fixed32 => exact hplain.elim

omit [Lawful α] in
/-- A field that the type does not declare makes no difference. -/
theorem absorbField_foreign {f : Field} (h : f.number ∉ numbers α) (limit : Nat) (m : α) :
    absorbField limit m f = some m := by
  have hnone : (Schema.slots : List (Slot α)).find? (·.number = f.number) = none := by
    refine List.find?_eq_none.2 fun s hs hn => h ?_
    rw [← of_decide_eq_true hn]
    exact List.mem_map_of_mem hs
  simp only [absorbField, hnone]

omit [Lawful α] in
theorem Among.foldlM {fs gs : List Field} (h : Among (numbers α) fs gs) (limit : Nat) (m : α) :
    gs.foldlM (absorbField limit) m = fs.foldlM (absorbField limit) m := by
  induction h generalizing m with
  | nil => rfl
  | @own f fs gs _ ih =>
    rw [List.foldlM_cons, List.foldlM_cons]
    exact congrArg _ (funext ih)
  | @foreign f fs gs hn _ ih =>
    rw [List.foldlM_cons, absorbField_foreign hn]
    exact ih m

/-- **A message that is written is read back**, whatever foreign fields stand among its own, if it is not longer than
anything can be. -/
theorem merge_interspersed {limit : Nat} (hd : Lawful.depth α ≤ limit) {m : α} {bs : List UInt8}
    (h : (encode m).length < UInt64.size) (hbs : Interspersed (numbers α) (fieldsOf m) bs) :
    merge limit bs Schema.empty = some m := by
  obtain ⟨gs, hr, hg⟩ := hbs.read (fits_fieldsOf h) limit
  rw [merge, hr]
  show gs.foldlM (absorbField limit) Schema.empty = some m
  rw [hg.foldlM]
  exact (Lawful.carried limit m hd).foldlM (fun _ hs => hs) fun s hs bs hbs =>
    Nat.lt_of_le_of_lt (length_le_encode (mem_fieldsOf.2 ⟨s, hs, _, hbs, rfl⟩)) h

theorem merge_encode {limit : Nat} (hd : Lawful.depth α ≤ limit) {m : α} (h : (encode m).length < UInt64.size) :
    merge limit (encode m) Schema.empty = some m :=
  merge_interspersed hd h (interspersed_encodeFields _ _)

theorem decode_encode (hd : Lawful.depth α ≤ depthLimit) {m : α} (h : (encode m).length < UInt64.size) :
    decode (encode m) = some m := merge_encode hd h

omit [Lawful α] in
/-- The bytes of a field are no longer than the message. -/
theorem length_bytes_le {n : Nat} {get : α → List UInt8} {put : List UInt8 → α → α}
    (h : Slot.bytes n get put ∈ (Schema.slots : List (Slot α))) (m : α) : (get m).length ≤ (encode m).length := by
  cases hm : get m with
  | nil => exact Nat.zero_le _
  | cons b bs =>
    rw [← hm]
    exact length_le_encode (mem_fieldsOf.2 ⟨_, h, .bytes (get m), by simp [Slot.bytes, Slot.omitIf, hm], rfl⟩)

end Lawful

namespace Slot

/-! ## The kinds of slots -/

variable {n limit : Nat} {m a : α}

/-- A slot that writes one payload, or none for a default. -/
theorem carries_omitIf {s : Slot α} {b : α} {c : Bool} {p : Payload} (he : s.emit m = omitIf c p) (hp : p.Plain)
    (ht : c = true → a = b) (hf : c = false → s.absorb limit p a = some b) : s.Carries limit m a b := by
  rw [omitIf] at he
  cases c with
  | true =>
    constructor <;> rw [he]
    · exact fun q hq => by cases hq
    · exact fun _ => congrArg some (ht rfl)
  | false =>
    constructor <;> rw [he]
    · intro q hq
      rw [List.mem_singleton.1 hq]
      exact hp
    · intro _
      simp only [Bool.false_eq_true, ↓reduceIte, List.foldlM_cons, hf rfl, List.foldlM_nil]
      rfl

theorem text_carries {get : α → String} {put : String → α → α} (hd : put "" a = a) :
    (text n get put).Carries limit m a (put (get m) a) := by
  refine carries_omitIf rfl trivial (fun he => ?_) fun _ => ?_
  · rw [String.isEmpty_iff.1 he, hd]
  · simp only [text, text?_utf8]

theorem bytes_carries {get : α → List UInt8} {put : List UInt8 → α → α} (hd : put [] a = a) :
    (bytes n get put).Carries limit m a (put (get m) a) := by
  refine carries_omitIf rfl trivial (fun he => ?_) fun _ => rfl
  rw [List.isEmpty_iff.1 he, hd]

theorem int64_carries {get : α → Int64} {put : Int64 → α → α} (hd : put 0 a = a) :
    (int64 n get put).Carries limit m a (put (get m) a) := by
  refine carries_omitIf rfl (UInt64.toNat_lt_size _) (fun he => ?_) fun _ => ?_
  · rw [of_decide_eq_true he, hd]
  · simp only [int64, UInt64.ofNat_toNat]
    rfl

theorem uint64_carries {get : α → UInt64} {put : UInt64 → α → α} (hd : put 0 a = a) :
    (uint64 n get put).Carries limit m a (put (get m) a) := by
  refine carries_omitIf rfl (UInt64.toNat_lt_size _) (fun he => ?_) fun _ => ?_
  · rw [of_decide_eq_true he, hd]
  · simp only [uint64, UInt64.ofNat_toNat]

/-- Sign extension is undone by cutting off what it added. -/
theorem toInt32_ofNat (i : Int32) : (UInt32.ofNat i.toInt64.toUInt64.toNat).toInt32 = i := by
  apply Int32.toBitVec_inj.1
  show BitVec.ofNat 32 (i.toBitVec.signExtend 64).toNat = i.toBitVec
  rw [BitVec.ofNat_toNat]
  ext j hj
  rw [BitVec.getElem_setWidth, BitVec.getLsbD_signExtend, if_pos hj, decide_eq_true (by omega : j < 64),
    Bool.true_and, BitVec.getLsbD_eq_getElem]

theorem int32_carries {get : α → Int32} {put : Int32 → α → α} (hd : put 0 a = a) :
    (int32 n get put).Carries limit m a (put (get m) a) := by
  refine carries_omitIf rfl (UInt64.toNat_lt_size _) (fun he => ?_) fun _ => ?_
  · rw [of_decide_eq_true he, hd]
  · simp only [int32, toInt32_ofNat]

theorem bool_carries {get : α → Bool} {put : Bool → α → α} (hd : put false a = a) :
    (bool n get put).Carries limit m a (put (get m) a) := by
  refine carries_omitIf rfl (show 1 < UInt64.size by decide) (fun he => ?_) fun he => ?_
  · rw [(Bool.not_eq_true' _).mp he, hd]
  · rw [(Bool.not_eq_false' _).mp he]
    rfl

/-- What a message holds in a list is read item by item. -/
structure Gathers {γ : Type} (s : Slot α) (limit : Nat) (item : γ → Payload) (get : α → List γ)
    (put : List γ → α → α) : Prop where
  emit : ∀ m, s.emit m = (get m).map item
  plain : ∀ c, (item c).Plain
  absorb : ∀ c a, s.absorb limit (item c) a = some (put (get a ++ [c]) a)
  get_put : ∀ cs a, get (put cs a) = cs
  put_put : ∀ cs ds a, put ds (put cs a) = put ds a

theorem Gathers.foldlM {γ : Type} {s : Slot α} {item : γ → Payload} {get : α → List γ} {put : List γ → α → α}
    (h : s.Gathers limit item get put) : ∀ (cs : List γ) (a : α), put (get a) a = a →
    (cs.map item).foldlM (fun x p => s.absorb limit p x) a = some (put (get a ++ cs) a)
  | [], a, hd => by
    rw [List.append_nil, hd]
    rfl
  | c :: cs, a, _ => by
    have hput : put (get (put (get a ++ [c]) a)) (put (get a ++ [c]) a) = put (get a ++ [c]) a := by
      rw [h.get_put, h.put_put]
    rw [List.map_cons, List.foldlM_cons, h.absorb]
    show (cs.map item).foldlM (fun x p => s.absorb limit p x) (put (get a ++ [c]) a) = _
    rw [h.foldlM cs _ hput, h.get_put, h.put_put, List.append_assoc, List.singleton_append]

theorem Gathers.carries {γ : Type} {s : Slot α} {item : γ → Payload} {get : α → List γ} {put : List γ → α → α}
    (h : s.Gathers limit item get put) (hg : get a = []) (hd : put [] a = a) :
    s.Carries limit m a (put (get m) a) where
  plain p hp := by
    rw [h.emit] at hp
    obtain ⟨c, _, rfl⟩ := List.mem_map.1 hp
    exact h.plain c
  copies _ := by
    rw [h.emit, h.foldlM _ _ (by rw [hg, hd]), hg, List.nil_append]

theorem texts_carries {get : α → List String} {put : List String → α → α} (hg : get a = []) (hd : put [] a = a)
    (hgp : ∀ cs a, get (put cs a) = cs) (hpp : ∀ cs ds a, put ds (put cs a) = put ds a) :
    (texts n get put).Carries limit m a (put (get m) a) :=
  Gathers.carries
    { emit := fun _ => rfl, plain := fun _ => trivial, absorb := fun c a => by simp only [texts, text?_utf8],
      get_put := hgp, put_put := hpp } hg hd

theorem byteLists_carries {get : α → List (List UInt8)} {put : List (List UInt8) → α → α} (hg : get a = [])
    (hd : put [] a = a) (hgp : ∀ cs a, get (put cs a) = cs) (hpp : ∀ cs ds a, put ds (put cs a) = put ds a) :
    (byteLists n get put).Carries limit m a (put (get m) a) :=
  Gathers.carries
    { emit := fun _ => rfl, plain := fun _ => trivial, absorb := fun _ _ => rfl, get_put := hgp, put_put := hpp }
    hg hd

/-- Messages inside stand one deeper. -/
theorem message_carries [Schema β] [Lawful β] {get : α → Option β} {put : Option β → α → α}
    (hd : put none a = a) (hg : get a = none) (hl : Lawful.depth β < limit) :
    (message n get put).Carries limit m a (put (get m) a) := by
  obtain ⟨k, rfl⟩ : ∃ k, limit = k + 1 := ⟨limit - 1, by omega⟩
  cases hm : get m with
  | none =>
    constructor <;> simp only [message, hm, Option.toList_none, List.map_nil]
    · exact fun p hp => by cases hp
    · exact fun _ => congrArg some hd.symm
  | some b =>
    constructor <;> simp only [message, hm, Option.toList_some, List.map_cons, List.map_nil]
    · intro p hp
      rw [List.mem_singleton.1 hp]
      trivial
    · intro hb
      have hb : merge k (encode b) Schema.empty = some b :=
        merge_encode (by omega) (hb (encode b) (List.mem_singleton.2 rfl))
      simp only [List.foldlM_cons, hg, Option.getD_none, hb, Option.map_some, List.foldlM_nil]
      rfl

end Slot
end LedgerClient.Wire

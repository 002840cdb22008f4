import LedgerClient.Wire.Field
/-!
# Fields and their bytes

What the bytes of a number and of a field can be (`IsVarint`, `Field.Spelled`) is said without the reader, which
takes each of them, whatever comes after (`IsVarint.read`, `Field.Spelled.read`); the writer picks one
(`Field.spelled_encode`).  So what is read of the fields of a message with foreign fields among them is these fields,
and foreign ones (`Interspersed.read`).
-/
namespace LedgerClient.Wire

/-! ## Numbers -/

/-- The bytes of a number: seven bits each, the lowest first.  The last ones may add nothing. -/
inductive Spells : Nat → List UInt8 → Prop where
  | last {b : UInt8} (h : b.toNat < 128) : Spells b.toNat [b]
  | more {b : UInt8} {n : Nat} {bs : List UInt8} (h : 128 ≤ b.toNat) (hs : Spells n bs) :
      Spells (b.toNat - 128 + 128 * n) (b :: bs)

/-- Numbers have 64 bits and at most ten bytes. -/
structure IsVarint (n : Nat) (bs : List UInt8) : Prop where
  spells : Spells n bs
  fits : n < UInt64.size
  short : bs.length ≤ 10

/-- What there is room for in `k` bytes of seven bits and a last one of one bit. -/
def varintBound : Nat → Nat
  | 0 => 2
  | k + 1 => 128 * varintBound k

theorem Spells.length_pos {n : Nat} {bs : List UInt8} (h : Spells n bs) : 0 < bs.length := by
  cases h <;> exact Nat.succ_pos _

theorem Spells.read {n : Nat} {bs : List UInt8} (h : Spells n bs) (r : List UInt8) :
    ∀ k, n < varintBound k → bs.length ≤ k + 1 → readVarintFrom k (bs ++ r) = some (n, r) := by
  induction h with
  | @last b hb =>
    intro k hk _
    cases k with
    | zero =>
      have hlt : b < 2 := UInt8.lt_iff_toNat_lt.2 hk
      rw [List.singleton_append, readVarintFrom, if_pos hlt]
    | succ k =>
      have hlt : b < 128 := UInt8.lt_iff_toNat_lt.2 hb
      rw [List.singleton_append, readVarintFrom, if_pos hlt]
  | @more b n bs hb hs ih =>
    intro k hk hl
    rw [List.length_cons] at hl
    have hpos := hs.length_pos
    obtain ⟨k, rfl⟩ : ∃ j, k = j + 1 := ⟨k - 1, by omega⟩
    have hge : ¬ b < 128 := fun hlt => absurd (UInt8.lt_iff_toNat_lt.1 hlt) (Nat.not_lt.2 hb)
    rw [varintBound] at hk
    rw [List.cons_append, readVarintFrom, if_neg hge, ih k (by omega) (by omega)]

/-- **A number is read from any of its spellings.** -/
theorem IsVarint.read {n : Nat} {bs : List UInt8} (h : IsVarint n bs) (r : List UInt8) :
    readVarint (bs ++ r) = some (n, r) := h.spells.read r 9 h.fits h.short

theorem spells_varintFrom : ∀ k n : Nat, n < varintBound k →
    Spells n (varintFrom k n) ∧ (varintFrom k n).length ≤ k + 1
  | 0, n, h => by
    rw [varintBound] at h
    have hb : (UInt8.ofNat n).toNat = n := UInt8.toNat_ofNat_of_lt' (show n < 256 by omega)
    have hs : Spells (UInt8.ofNat n).toNat [UInt8.ofNat n] := .last (by omega)
    rw [hb] at hs
    exact ⟨hs, Nat.le_refl 1⟩
  | k + 1, n, h => by
    rw [varintFrom]
    by_cases hn : n < 128
    · have hb : (UInt8.ofNat n).toNat = n := UInt8.toNat_ofNat_of_lt' (show n < 256 by omega)
      have hs : Spells (UInt8.ofNat n).toNat [UInt8.ofNat n] := .last (by omega)
      rw [hb] at hs
      rw [if_pos hn]
      exact ⟨hs, Nat.le_add_left _ _⟩
    · have hb : (UInt8.ofNat (128 + n % 128)).toNat = 128 + n % 128 :=
        UInt8.toNat_ofNat_of_lt' (show 128 + n % 128 < 256 by omega)
      obtain ⟨hs, hl⟩ := spells_varintFrom k (n / 128) (Nat.div_lt_of_lt_mul h)
      have hm := Spells.more (b := UInt8.ofNat (128 + n % 128)) (by omega) hs
      rw [hb, show 128 + n % 128 - 128 + 128 * (n / 128) = n by omega] at hm
      rw [if_neg hn]
      exact ⟨hm, Nat.succ_le_succ hl⟩

/-- The writer spells a number. -/
theorem isVarint_varint {n : Nat} (h : n < UInt64.size) : IsVarint n (varint n) where
  spells := (spells_varintFrom 9 n h).1
  fits := h
  short := (spells_varintFrom 9 n h).2

/-! ## Fields -/

/-- What there is room for in the form of a payload; a group has no form of its own. -/
def Payload.Fits : Payload → Prop
  | .varint n => n < UInt64.size
  | .fixed64 bs => bs.length = 8
  | .bytes bs => bs.length < UInt64.size
  | .group => False
  | .fixed32 bs => bs.length = 4

/-- Keys have 32 bits, and numbers start at one. -/
def Field.Fits (f : Field) : Prop := 1 ≤ f.number ∧ f.number < 0x20000000 ∧ f.payload.Fits

/-- The bytes of a payload. -/
inductive Payload.Spelled : Payload → List UInt8 → Prop where
  | varint {n : Nat} {bs : List UInt8} (h : IsVarint n bs) : Spelled (.varint n) bs
  | fixed64 {bs : List UInt8} (h : bs.length = 8) : Spelled (.fixed64 bs) bs
  | bytes {bs l : List UInt8} (h : IsVarint bs.length l) : Spelled (.bytes bs) (l ++ bs)
  | fixed32 {bs : List UInt8} (h : bs.length = 4) : Spelled (.fixed32 bs) bs

/-- The bytes of a field: its key, which holds the number and the kind, and its payload. -/
inductive Field.Spelled (f : Field) : List UInt8 → Prop where
  | mk {key bs : List UInt8} (h₁ : 1 ≤ f.number) (h₂ : f.number < 0x20000000)
      (hk : IsVarint (8 * f.number + f.payload.kind) key) (hp : f.payload.Spelled bs) : Spelled f (key ++ bs)

theorem readKey_spelled {number kind : Nat} {key : List UInt8} (h₁ : 1 ≤ number) (h₂ : number < 0x20000000)
    (hk : kind < 8) (h : IsVarint (8 * number + kind) key) (r : List UInt8) :
    readKey (key ++ r) = some (number, kind, r) := by
  have hkey : (decide (8 * number + kind < 0x100000000) && decide (8 ≤ 8 * number + kind)) = true := by
    rw [Bool.and_eq_true, decide_eq_true_eq, decide_eq_true_eq]
    omega
  rw [readKey, h.read]
  simp only [hkey, ↓reduceIte]
  rw [show (8 * number + kind) / 8 = number by omega, show (8 * number + kind) % 8 = kind by omega]

theorem take?_append {n : Nat} {bs : List UInt8} (h : bs.length = n) (r : List UInt8) :
    take? n (bs ++ r) = some (bs, r) := by
  subst h
  rw [take?, if_pos (by rw [List.length_append]; omega), List.take_left, List.drop_left]

theorem Payload.Spelled.read {p : Payload} {bs : List UInt8} (h : p.Spelled bs) (r : List UInt8) :
    readPlain p.kind (bs ++ r) = some (p, r) := by
  cases h with
  | varint h => simp only [kind, readPlain, h.read, Option.map_some]
  | fixed64 h => simp only [kind, readPlain, take?_append h, Option.map_some]
  | bytes h => simp only [kind, readPlain, List.append_assoc, h.read, take?_append rfl, Option.map_some]
  | fixed32 h => simp only [kind, readPlain, take?_append h, Option.map_some]

theorem Payload.Spelled.kind_lt {p : Payload} {bs : List UInt8} (h : p.Spelled bs) : p.kind < 8 ∧ p.kind ≠ 3 := by
  cases h <;> simp [kind]

/-- **A field is read from any of its spellings.** -/
theorem Field.Spelled.read {f : Field} {bs : List UInt8} (h : f.Spelled bs) (limit : Nat) (r : List UInt8) :
    readField limit (bs ++ r) = some (f, r) := by
  obtain ⟨h₁, h₂, hk, hp⟩ := h
  rw [readField, List.append_assoc, readKey_spelled h₁ h₂ hp.kind_lt.1 hk]
  simp only [hp.kind_lt.2, ↓reduceIte, hp.read, Option.map_some]

theorem Field.Spelled.length_pos {f : Field} {bs : List UInt8} (h : f.Spelled bs) : 0 < bs.length := by
  obtain ⟨_, _, hk, _⟩ := h
  rw [List.length_append]
  exact Nat.add_pos_left hk.spells.length_pos _

theorem Payload.spelled_encode {p : Payload} (h : p.Fits) (number : Nat) : p.Spelled (p.encode number) := by
  cases p with
  | varint n => exact .varint (isVarint_varint h)
  | fixed64 bs => exact .fixed64 h
  | bytes bs => exact .bytes (isVarint_varint h)
  | group => exact h.elim
  | fixed32 bs => exact .fixed32 h

/-- The writer spells a field that fits. -/
theorem Field.spelled_encode {f : Field} (h : f.Fits) : f.Spelled f.encode := by
  obtain ⟨h₁, h₂, hp⟩ := h
  have hs := Payload.spelled_encode hp f.number
  refine .mk h₁ h₂ (isVarint_varint ?_) hs
  have hk := hs.kind_lt.1
  rw [UInt64.size]
  omega

/-! ## Runs of fields -/

/-- The bytes of some fields, in order, with foreign fields before, between and after them: fields of any kind and
spelling whose numbers are none of `known`. -/
inductive Interspersed (known : List Nat) : List Field → List UInt8 → Prop where
  | nil : Interspersed known [] []
  | own {f : Field} {fs : List Field} {bs : List UInt8} (hs : Interspersed known fs bs) :
      Interspersed known (f :: fs) (f.encode ++ bs)
  | foreign {f : Field} {fs : List Field} {b bs : List UInt8} (hn : f.number ∉ known) (hb : f.Spelled b)
      (hs : Interspersed known fs bs) : Interspersed known fs (b ++ bs)

/-- There need not be any foreign fields. -/
theorem interspersed_encodeFields (known : List Nat) : ∀ fs : List Field, Interspersed known fs (encodeFields fs)
  | [] => .nil
  | f :: fs => by
    rw [encodeFields, List.flatMap_cons]
    exact .own (interspersed_encodeFields known fs)

/-- Some fields, in order, with fields of other numbers among them. -/
inductive Among (known : List Nat) : List Field → List Field → Prop where
  | nil : Among known [] []
  | own {f : Field} {fs gs : List Field} (h : Among known fs gs) : Among known (f :: fs) (f :: gs)
  | foreign {f : Field} {fs gs : List Field} (hn : f.number ∉ known) (h : Among known fs gs) :
      Among known fs (f :: gs)

theorem readFieldsFrom_step {f : Field} {b : List UInt8} (h : f.Spelled b) (limit : Nat) (bs : List UInt8)
    {fuel : Nat} (hl : (b ++ bs).length ≤ fuel) :
    ∃ k, bs.length ≤ k ∧
      readFieldsFrom limit fuel (b ++ bs) = (readFieldsFrom limit k bs).map (f :: ·) := by
  have hpos := h.length_pos
  rw [List.length_append] at hl
  obtain ⟨k, rfl⟩ : ∃ k, fuel = k + 1 := ⟨fuel - 1, by omega⟩
  refine ⟨k, by omega, ?_⟩
  rw [readFieldsFrom]
  · simp only [h.read limit bs]
  · exact fun he => absurd (congrArg List.length he) (by rw [List.length_append, List.length_nil]; omega)

/-- **Fields are read back**, with foreign ones among them. -/
theorem Interspersed.read {known : List Nat} {fs : List Field} {bs : List UInt8} (h : Interspersed known fs bs)
    (hf : ∀ f ∈ fs, f.Fits) (limit : Nat) : ∃ gs, readFields limit bs = some gs ∧ Among known fs gs := by
  -- any fuel will do that is enough for the bytes, so that the induction is on the bytes alone
  suffices h' : ∀ fuel, bs.length ≤ fuel → ∃ gs, readFieldsFrom limit fuel bs = some gs ∧ Among known fs gs from
    h' bs.length (Nat.le_refl _)
  induction h with
  | nil => exact fun fuel _ => ⟨[], by cases fuel <;> rfl, .nil⟩
  | own _ ih =>
    intro fuel hl
    obtain ⟨k, hk, he⟩ := readFieldsFrom_step (Field.spelled_encode (hf _ List.mem_cons_self)) limit _ hl
    obtain ⟨gs, hg, ha⟩ := ih (fun f hm => hf f (List.mem_cons_of_mem _ hm)) k hk
    exact ⟨_, by rw [he, hg]; rfl, .own ha⟩
  | foreign hn hb _ ih =>
    intro fuel hl
    obtain ⟨k, hk, he⟩ := readFieldsFrom_step hb limit _ hl
    obtain ⟨gs, hg, ha⟩ := ih hf k hk
    exact ⟨_, by rw [he, hg]; rfl, .foreign hn ha⟩

end LedgerClient.Wire

import LedgerClient.Proofs.Text.Utf8
import LedgerClient.Text.Blank
import LedgerClient.Text.Hex
/-!
# Digits that are written are read back

Every byte is written as two digits, none of them blank, and read back from them (`decode_encode`); so no two byte
strings have the same digits (`hex_inj`), and the digits are in the order of the bytes (`hex_lt_iff`).  Digits of either
case are read (`decode_eq_ok_iff`), and a text can be read exactly if it has two of them for every byte
(`exists_spells_iff`).
-/
namespace LedgerClient.Hex

theorem encodeChar_digit {n : Nat} (h : n < 16) : ∃ b, Utf8.encodeChar (digit n) = [b] ∧ digit? b = some n := by
  have hall : ∀ k : Fin 16, ∃ b, Utf8.encodeChar (digit k) = [b] ∧ digit? b = some k.val := fun k =>
    ⟨UInt8.ofNat (digit k).toNat, by revert k; decide, by revert k; decide⟩
  exact hall ⟨n, h⟩

theorem isBlank_digit {n : Nat} (h : n < 16) : isBlank (digit n) = false := by
  have hall : ∀ k : Fin 16, isBlank (digit k) = false := by decide
  exact hall ⟨n, h⟩

/-- The two digits of a byte. -/
theorem encode_cons (b : UInt8) (r : List UInt8) : ∃ x y,
    Utf8.encode (encode (b :: r)) = x :: y :: Utf8.encode (encode r) ∧
    digit? x = some (b.toNat / 16) ∧ digit? y = some (b.toNat % 16) := by
  have hb : b.toNat < 256 := b.toNat_lt_size
  obtain ⟨x, hx, hdx⟩ := encodeChar_digit (n := b.toNat / 16) (by omega)
  obtain ⟨y, hy, hdy⟩ := encodeChar_digit (n := b.toNat % 16) (by omega)
  refine ⟨x, y, ?_, hdx, hdy⟩
  rw [encode, Utf8.encode, List.flatMap_cons, List.flatMap_cons, hx, hy]
  rfl

theorem length_encode (v : List UInt8) : (Utf8.encode (encode v)).length = 2 * v.length := by
  induction v with
  | nil => rfl
  | cons b r ih =>
    obtain ⟨x, y, he, _⟩ := encode_cons b r
    rw [he, List.length_cons, List.length_cons, ih, List.length_cons]
    omega

theorem pairs_encode (v : List UInt8) (i : Nat) : pairs i (Utf8.encode (encode v)) = .ok v := by
  induction v generalizing i with
  | nil => rfl
  | cons b r ih =>
    have hb : 16 * (b.toNat / 16) + b.toNat % 16 = b.toNat := Nat.div_add_mod _ _
    obtain ⟨x, y, he, hx, hy⟩ := encode_cons b r
    rw [he, pairs, hx, hy]
    simp only [ih, hb, UInt8.ofNat_toNat]
    rfl

/-- **Bytes are read back from their digits.** -/
theorem decode_encode (v : List UInt8) : decode (Utf8.encode (encode v)) = .ok v := by
  have h : ¬ (2 * v.length) % 2 = 1 := by omega
  rw [decode, length_encode, if_neg h, pairs_encode]

theorem encode_inj {v w : List UInt8} (h : encode v = encode w) : v = w := by
  have hw := decode_encode w
  rw [← h, decode_encode] at hw
  exact Except.ok.inj hw

theorem mem_encode {c : Char} {v : List UInt8} (h : c ∈ encode v) : ∃ n, n < 16 ∧ c = digit n := by
  induction v with
  | nil => cases h
  | cons b r ih =>
    have hb : b.toNat < 256 := b.toNat_lt_size
    rw [encode, List.mem_cons, List.mem_cons] at h
    rcases h with rfl | rfl | h
    · exact ⟨_, by omega, rfl⟩
    · exact ⟨_, by omega, rfl⟩
    · exact ih h

/-! ## No blanks -/

theorem dropWhile_of_none {p : Char → Bool} {s : List Char} (h : ∀ c ∈ s, p c = false) : s.dropWhile p = s := by
  cases s with
  | nil => rfl
  | cons c s => rw [List.dropWhile_cons, if_neg (by rw [h c List.mem_cons_self]; exact Bool.false_ne_true)]

theorem trim_encode (v : List UInt8) : trim (encode v) = encode v := by
  have h : ∀ c ∈ encode v, isBlank c = false := fun c hc => by
    obtain ⟨n, hn, rfl⟩ := mem_encode hc
    exact isBlank_digit hn
  rw [trim, dropWhile_of_none h, dropTrailing, dropWhile_of_none fun c hc => h c (List.mem_reverse.1 hc),
    List.reverse_reverse]

/-! ## Order -/

theorem digit_lt {m n : Nat} (hn : n < 16) (h : m < n) : digit m < digit n := by
  have hall : ∀ n : Fin 16, ∀ m : Fin n, digit m < digit n := by decide
  exact hall ⟨n, hn⟩ ⟨m, h⟩

theorem encode_lt {v w : List UInt8} (h : v < w) : encode v < encode w := by
  induction v generalizing w with
  | nil =>
    cases w with
    | nil => exact absurd h (List.lt_irrefl _)
    | cons b w => exact List.nil_lt_cons _ _
  | cons a v ih =>
    cases w with
    | nil => exact absurd h (List.not_lt_nil _)
    | cons b w =>
      have hb : b.toNat < 256 := b.toNat_lt_size
      rw [encode, encode, List.cons_lt_cons_iff, List.cons_lt_cons_iff]
      rcases List.cons_lt_cons_iff.1 h with hab | ⟨rfl, hvw⟩
      · have hlt : a.toNat < b.toNat := UInt8.lt_iff_toNat_lt.1 hab
        by_cases hhigh : a.toNat / 16 = b.toNat / 16
        · exact .inr ⟨by rw [hhigh], .inl (digit_lt (by omega) (by omega))⟩
        · exact .inl (digit_lt (by omega) (by omega))
      · exact .inr ⟨rfl, .inr ⟨rfl, ih hvw⟩⟩

/-! ## Digits of either case -/

/-- Two digits for every byte, of either case. -/
inductive Spells : List UInt8 → List UInt8 → Prop where
  | nil : Spells [] []
  | cons {a b : UInt8} {x y : Nat} {r v : List UInt8} (ha : digit? a = some x) (hb : digit? b = some y)
      (h : Spells r v) : Spells (a :: b :: r) (UInt8.ofNat (16 * x + y) :: v)

theorem Spells.even {s v : List UInt8} (h : Spells s v) : s.length % 2 = 0 := by
  induction h with
  | nil => rfl
  | cons _ _ _ ih =>
    rw [List.length_cons, List.length_cons]
    omega

theorem Spells.digits {s v : List UInt8} (h : Spells s v) : ∀ b ∈ s, (digit? b).isSome = true := by
  induction h with
  | nil => exact nofun
  | cons ha hb _ ih =>
    rw [List.forall_mem_cons, List.forall_mem_cons, ha, hb]
    exact ⟨rfl, rfl, ih⟩

theorem exists_spells {s : List UInt8} (he : s.length % 2 = 0) (hd : ∀ b ∈ s, (digit? b).isSome = true) :
    ∃ v, Spells s v := by
  match s with
  | [] => exact ⟨[], .nil⟩
  | [_] => cases he
  | a :: b :: r =>
    rw [List.forall_mem_cons, List.forall_mem_cons] at hd
    obtain ⟨x, hx⟩ := Option.isSome_iff_exists.1 hd.1
    obtain ⟨y, hy⟩ := Option.isSome_iff_exists.1 hd.2.1
    rw [List.length_cons, List.length_cons] at he
    obtain ⟨v, hv⟩ := exists_spells (s := r) (by omega) hd.2.2
    exact ⟨_, .cons hx hy hv⟩
termination_by s.length

theorem Spells.pairs_eq {s v : List UInt8} (h : Spells s v) (i : Nat) : pairs i s = .ok v := by
  induction h generalizing i with
  | nil => rfl
  | cons ha hb _ ih =>
    rw [pairs, ha, hb]
    dsimp only
    rw [ih]
    rfl

theorem spells_of_pairs {s v : List UInt8} {i : Nat} (he : s.length % 2 = 0) (h : pairs i s = .ok v) : Spells s v := by
  match s, h with
  | [], h =>
    cases h
    exact .nil
  | [_], _ => cases he
  | a :: b :: r, h =>
    rw [pairs] at h
    split at h
    · rename_i ha hb
      cases hr : pairs (i + 2) r with
      | error f =>
        rw [hr] at h
        cases h
      | ok w =>
        rw [hr] at h
        cases h
        rw [List.length_cons, List.length_cons] at he
        exact .cons ha hb (spells_of_pairs (by omega) hr)
    · cases h
    · cases h
termination_by s.length

/-- **Exactly what spells some bytes is read**, and as these bytes. -/
theorem decode_eq_ok_iff {s v : List UInt8} : decode s = .ok v ↔ Spells s v := by
  rw [decode]
  split
  · rename_i hodd
    refine ⟨nofun, fun h => ?_⟩
    rw [h.even] at hodd
    cases hodd
  · rename_i hodd
    have heven : s.length % 2 = 0 := by omega
    exact ⟨spells_of_pairs heven, fun h => h.pairs_eq 0⟩

/-! ## Texts of digits -/

/-- A hexadecimal digit of either case. -/
def IsDigit (c : Char) : Prop := ('0' ≤ c ∧ c ≤ '9') ∨ ('a' ≤ c ∧ c ≤ 'f') ∨ ('A' ≤ c ∧ c ≤ 'F')

instance (c : Char) : Decidable (IsDigit c) := inferInstanceAs (Decidable (_ ∨ _))

/-- Text of digits, two for every byte. -/
def IsDigits (t : String) : Prop := t.length % 2 = 0 ∧ ∀ c ∈ t.toList, IsDigit c

instance (t : String) : Decidable (IsDigits t) := inferInstanceAs (Decidable (_ ∧ _))

theorem IsDigit.lt {c : Char} (h : IsDigit c) : c.toNat < 128 := by
  have hle : ∀ {d : Char}, c ≤ d → c.toNat ≤ d.toNat := fun h => h
  rcases h with h | h | h
  · exact Nat.lt_of_le_of_lt (hle h.2) (by decide)
  · exact Nat.lt_of_le_of_lt (hle h.2) (by decide)
  · exact Nat.lt_of_le_of_lt (hle h.2) (by decide)

theorem encodeChar_ascii {c : Char} (h : c.toNat < 128) : Utf8.encodeChar c = [UInt8.ofNat c.toNat] := if_pos h

theorem digit?_ascii {c : Char} (h : c.toNat < 128) : (digit? (UInt8.ofNat c.toNat)).isSome = true ↔ IsDigit c := by
  have hall : ∀ k : Fin 128, (digit? (UInt8.ofNat k)).isSome = true ↔ IsDigit (Char.ofNat k) := by
    decide +kernel
  have hc := hall ⟨c.toNat, h⟩
  rwa [Char.ofNat_toNat] at hc

theorem digit?_of_le {b : UInt8} (h : 128 ≤ b.toNat) : digit? b = none := by
  have hle : ∀ {c : UInt8}, c.toNat < 128 → decide (b ≤ c) = false := fun hc => by
    rw [decide_eq_false_iff_not, UInt8.le_iff_toNat_le]
    omega
  rw [digit?, hle (by decide), hle (by decide), hle (by decide)]
  simp only [Bool.and_false, Bool.false_eq_true, ↓reduceIte]

/-- A character that takes more bytes begins with one that is no digit. -/
theorem digit?_lead {c : Char} (h : ¬ c.toNat < 128) : ∃ b ∈ Utf8.encodeChar c, digit? b = none := by
  have hv := Utf8.toNat_valid c
  have hlead : ∀ {n : Nat} {s : List UInt8}, 128 ≤ n → n < 256 → ∃ b ∈ UInt8.ofNat n :: s, digit? b = none :=
    fun hl hu => ⟨_, List.mem_cons_self, digit?_of_le (by rw [Utf8.toNat_ofNat hu]; exact hl)⟩
  unfold Utf8.encodeChar
  dsimp only
  rw [if_neg h]
  split
  · exact hlead (by omega) (by omega)
  split
  · exact hlead (by omega) (by omega)
  · exact hlead (by omega) (by omega)

theorem forall_digit?_iff (c : Char) : (∀ b ∈ Utf8.encodeChar c, (digit? b).isSome = true) ↔ IsDigit c := by
  by_cases h : c.toNat < 128
  · rw [encodeChar_ascii h, List.forall_mem_singleton, digit?_ascii h]
  · refine ⟨fun hb => ?_, fun hc => absurd hc.lt h⟩
    obtain ⟨b, hmem, hnone⟩ := digit?_lead h
    have hsome := hb b hmem
    rw [hnone] at hsome
    cases hsome

theorem length_encode_of_digits {s : List Char} (h : ∀ c ∈ s, IsDigit c) : (Utf8.encode s).length = s.length := by
  induction s with
  | nil => rfl
  | cons c s ih =>
    rw [List.forall_mem_cons] at h
    rw [Utf8.encode, List.flatMap_cons, ← Utf8.encode, encodeChar_ascii h.1.lt, List.singleton_append,
      List.length_cons, List.length_cons, ih h.2]

/-- **A text spells some bytes exactly if it has two digits for each**, of either case. -/
theorem exists_spells_iff (t : String) : (∃ v, Spells (utf8 t) v) ↔ IsDigits t := by
  have hchars : (∀ b ∈ utf8 t, (digit? b).isSome = true) ↔ ∀ c ∈ t.toList, IsDigit c := by
    rw [utf8, Utf8.encode, List.forall_mem_flatMap]
    exact forall₂_congr fun c _ => forall_digit?_iff c
  have hlength : (∀ c ∈ t.toList, IsDigit c) → (utf8 t).length = t.length := fun h =>
    (length_encode_of_digits h).trans String.length_toList
  constructor
  · rintro ⟨v, h⟩
    have hc := hchars.1 h.digits
    exact ⟨hlength hc ▸ h.even, hc⟩
  · rintro ⟨he, hc⟩
    exact exists_spells (by rw [hlength hc]; exact he) (hchars.2 hc)

theorem spells_encode (v : List UInt8) : Spells (Utf8.encode (encode v)) v := decode_eq_ok_iff.1 (decode_encode v)

/-! ## Lowercase digits -/

def IsLower (c : Char) : Prop := ('0' ≤ c ∧ c ≤ '9') ∨ ('a' ≤ c ∧ c ≤ 'f')

instance (c : Char) : Decidable (IsLower c) := inferInstanceAs (Decidable (_ ∨ _))

/-- The text has two digits for each of the bytes, none of them a capital. -/
def Writes (t : String) (v : List UInt8) : Prop := Spells (utf8 t) v ∧ ∀ c ∈ t.toList, IsLower c

theorem isLower_digit {n : Nat} (h : n < 16) : IsLower (digit n) := by
  have hall : ∀ k : Fin 16, IsLower (digit k) := by decide
  exact hall ⟨n, h⟩

theorem writes_encode (v : List UInt8) : Writes (String.ofList (encode v)) v := by
  rw [Writes, utf8, String.toList_ofList]
  refine ⟨spells_encode v, fun c hc => ?_⟩
  obtain ⟨n, hn, rfl⟩ := mem_encode hc
  exact isLower_digit hn

end LedgerClient.Hex

namespace LedgerClient

theorem hex_inj {v w : List UInt8} (h : hex v = hex w) : v = w :=
  Hex.encode_inj (String.ofList_injective h)

theorem utf8_hex (v : List UInt8) : utf8 (hex v) = Utf8.encode (Hex.encode v) :=
  congrArg Utf8.encode String.toList_ofList

/-- **Digits keep the order of the bytes.** -/
theorem hex_lt_iff {v w : List UInt8} : hex v < hex w ↔ v < w := by
  have hlt : ∀ {v w : List UInt8}, v < w → hex v < hex w := fun {v w} h => by
    have hchars : (hex v).toList < (hex w).toList := by simpa [hex] using Hex.encode_lt h
    exact hchars
  refine ⟨fun h => Classical.byContradiction fun hn => ?_, hlt⟩
  by_cases hwv : w < v
  · exact String.lt_asymm h (hlt hwv)
  · rw [List.le_antisymm (List.not_lt.1 hwv) (List.not_lt.1 hn)] at h
    exact String.lt_irrefl _ h

end LedgerClient

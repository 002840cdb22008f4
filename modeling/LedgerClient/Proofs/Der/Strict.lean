import Mathlib.Algebra.Order.Ring.Nat
import Mathlib.Tactic.Ring
import LedgerClient.Der.Strict
/-!
# The strict form, written and read

A number is written in the fewest bytes (`minimal_unsignedContents`): the top bit of the first one is clear, and a zero
byte stands in front only where that bit would be set without it.  It is read back as the number
(`unsigned?_of_minimal`).  An element of fewer than 128 bytes has one byte for its length (`write_of_short`), and is read
back whatever follows it (`expect_write`).
-/
namespace LedgerClient.Der

theorem ofBigEndian_foldl (bs : List UInt8) (m : Nat) :
    bs.foldl (fun n b => n * 256 + b.toNat) m = m * 256 ^ bs.length + ofBigEndian bs := by
  unfold ofBigEndian
  induction bs generalizing m with
  | nil => simp
  | cons b bs ih =>
    rw [List.foldl_cons, List.foldl_cons, ih, ih (0 * 256 + b.toNat), List.length_cons, pow_succ]
    ring

theorem ofBigEndian_cons (b : UInt8) (bs : List UInt8) :
    ofBigEndian (b :: bs) = b.toNat * 256 ^ bs.length + ofBigEndian bs := by
  rw [ofBigEndian, List.foldl_cons, ofBigEndian_foldl, zero_mul, zero_add]

theorem ofBigEndian_concat (bs : List UInt8) (b : UInt8) :
    ofBigEndian (bs ++ [b]) = ofBigEndian bs * 256 + b.toNat := by
  simp [ofBigEndian]

namespace Strict

/-! ## Bytes of a number -/

theorem bigEndian_zero : ∀ k, bigEndian k 0 = []
  | 0 => rfl
  | _ + 1 => rfl

theorem bigEndian_succ {k n : Nat} (hn : n ≠ 0) : bigEndian (k + 1) n = bigEndian k (n / 256) ++ [UInt8.ofNat n] := by
  rw [bigEndian, if_neg hn]

theorem div_lt_pow {k n : Nat} (h : n < 256 ^ (k + 1)) : n / 256 < 256 ^ k :=
  Nat.div_lt_of_lt_mul (by rwa [pow_succ, mul_comm] at h)

theorem ofBigEndian_bigEndian : ∀ {k n : Nat}, n < 256 ^ k → ofBigEndian (bigEndian k n) = n
  | 0, n, h => by
    have hn : n = 0 := by omega
    rw [hn]
    rfl
  | k + 1, n, h => by
    by_cases hn : n = 0
    · rw [hn, bigEndian_zero]
      rfl
    · rw [bigEndian_succ hn, ofBigEndian_concat, ofBigEndian_bigEndian (div_lt_pow h),
        UInt8.toNat_ofNat']
      omega

theorem length_bigEndian_le : ∀ {k j n : Nat}, n < 256 ^ j → (bigEndian k n).length ≤ j
  | 0, _, _, _ => Nat.zero_le _
  | k + 1, j, n, h => by
    by_cases hn : n = 0
    · rw [hn, bigEndian_zero]
      exact Nat.zero_le _
    · cases j with
      | zero => omega
      | succ j =>
        rw [bigEndian_succ hn, List.length_append, List.length_singleton]
        exact Nat.succ_le_succ (length_bigEndian_le (div_lt_pow h))

/-- No zero byte stands in front. -/
theorem head_bigEndian : ∀ {k n : Nat}, n < 256 ^ k → ∀ b r, bigEndian k n = b :: r → b ≠ 0
  | 0, _, _, _, _, hb => by cases hb
  | k + 1, n, h, b, r, hb => by
    by_cases hn : n = 0
    · rw [hn, bigEndian_zero] at hb
      cases hb
    · rw [bigEndian_succ hn] at hb
      cases hrest : bigEndian k (n / 256) with
      | cons b' r' =>
        rw [hrest, List.cons_append] at hb
        cases hb
        exact head_bigEndian (div_lt_pow h) _ _ hrest
      | nil =>
        -- the byte is all there is of the number, which is not zero
        have hzero : n / 256 = 0 := by rw [← ofBigEndian_bigEndian (div_lt_pow h), hrest]; rfl
        rw [hrest, List.nil_append] at hb
        cases hb
        intro h0
        have hbyte : n % 256 = (0 : UInt8).toNat := by rw [← h0]; exact UInt8.toNat_ofNat'.symm
        exact hn (by rw [← Nat.div_add_mod n 256, hzero, hbyte]; rfl)

theorem lt_bytes (n : Nat) : n < 256 ^ (n.log2 / 8 + 1) := by
  have hlog : n < 2 ^ (n.log2 + 1) := Nat.lt_log2_self
  have hle : 2 ^ (n.log2 + 1) ≤ 2 ^ (8 * (n.log2 / 8 + 1)) := Nat.pow_le_pow_right (by omega) (by omega)
  rw [show 256 = 2 ^ 8 from rfl, ← pow_mul]
  exact hlog.trans_le hle

/-! ## Contents of an integer -/

/-- **The contents of an integer that is not negative, in the fewest bytes**: the top bit of the first byte is the sign,
and a zero byte stands in front of others only where the next one has its top bit set. -/
structure Minimal (n : Nat) (c : List UInt8) : Prop where
  value : ofBigEndian c = n
  nonempty : c ≠ []
  sign : ∀ b r, c = b :: r → b < 0x80
  fewest : ∀ b r, c = 0 :: b :: r → 0x80 ≤ b

/-- **A number is written in the fewest bytes.** -/
theorem minimal_unsignedContents (n : Nat) : Minimal n (unsignedContents n) := by
  have hvalue := ofBigEndian_bigEndian (lt_bytes n)
  have hhead := head_bigEndian (lt_bytes n)
  unfold unsignedContents
  cases hb : bigEndian (n.log2 / 8 + 1) n with
  | nil =>
    rw [hb] at hvalue
    exact ⟨hvalue, by simp, by simp, by simp⟩
  | cons b r =>
    rw [hb] at hvalue
    dsimp only
    by_cases htop : 0x80 ≤ b
    · rw [if_pos htop]
      refine ⟨?_, by simp, by simp, ?_⟩
      · rw [ofBigEndian_cons, hvalue]
        simp
      · rintro _ _ ⟨rfl, rfl⟩
        exact htop
    · rw [if_neg htop]
      refine ⟨hvalue, by simp, ?_, ?_⟩
      · rintro _ _ ⟨rfl, rfl⟩
        exact UInt8.not_le.1 htop
      · rintro b' r' h
        exact absurd (List.cons.inj h).1 (hhead b r hb)

/-- Numbers below `128 * 256 ^ j` take `j + 1` bytes at most. -/
theorem length_unsignedContents_le {n j : Nat} (h : n < 128 * 256 ^ j) : (unsignedContents n).length ≤ j + 1 := by
  have hvalue := ofBigEndian_bigEndian (lt_bytes n)
  have hlength : (bigEndian (n.log2 / 8 + 1) n).length ≤ j + 1 :=
    length_bigEndian_le (h.trans_le (by rw [pow_succ]; omega))
  unfold unsignedContents
  cases hb : bigEndian (n.log2 / 8 + 1) n with
  | nil => simp
  | cons b r =>
    rw [hb] at hvalue hlength
    dsimp only
    by_cases htop : 0x80 ≤ b
    · -- with its top bit set the first byte makes the number too large for one more
      have hb128 : 128 ≤ b.toNat := htop
      have hless : 256 ^ r.length < 256 ^ j := by
        rw [ofBigEndian_cons] at hvalue
        have hmul := Nat.mul_le_mul_right (256 ^ r.length) hb128
        omega
      have hr : r.length < j := (Nat.pow_lt_pow_iff_right (by omega)).1 hless
      rw [if_pos htop, List.length_cons, List.length_cons]
      omega
    · rw [if_neg htop]
      exact hlength

/-- **It is read back.** -/
theorem unsigned?_of_minimal {n : Nat} {c : List UInt8} (h : Minimal n c) : unsigned? c = some n := by
  match c, h with
  | [], h => exact absurd rfl h.nonempty
  | [b], h =>
    have hb : b < 0x80 := h.sign b [] rfl
    have hvalue := h.value
    rw [ofBigEndian_cons] at hvalue
    simp only [unsigned?, if_pos hb]
    simpa [ofBigEndian] using hvalue
  | a :: b :: r, h =>
    have ha : ¬ 0x80 ≤ a := UInt8.not_le.2 (h.sign a (b :: r) rfl)
    have hab : ¬ (a = 0 ∧ b < 0x80) := fun hab => by
      obtain ⟨rfl, hb⟩ := hab
      exact UInt8.not_le.2 hb (h.fewest b r rfl)
    simp [unsigned?, ha, hab, h.value]

/-! ## Short elements -/

/-- The contents take one byte for their length. -/
abbrev Short (c : List UInt8) : Prop := c.length < 0x80

theorem write_of_short {id : UInt8} {c : List UInt8} (hc : Short c) :
    write id c = id :: UInt8.ofNat c.length :: c := by
  rw [write, writeLength, if_pos hc]
  rfl

theorem readLength_of_short {n : Nat} (hn : n < 0x80) (r : List UInt8) :
    readLength (UInt8.ofNat n :: r) = some (n, r) := by
  have hbyte : (UInt8.ofNat n).toNat = n := UInt8.toNat_ofNat_of_lt' (by simp [UInt8.size]; omega)
  have hlength : Der.length (UInt8.ofNat n :: r) = some (n, r) := by
    simp only [Der.length, hbyte, if_pos hn]
  have hmax : n ≤ maxLength := hn.le.trans (by decide)
  rw [readLength, hlength]
  simp [writeLength, hn, hmax]

/-- **A short element is read back.** -/
theorem expect_write {id : UInt8} {c : List UInt8} (hid : knownId id = true) (hc : Short c) (t : List UInt8) :
    expect id (write id c ++ t) = some (c, t) := by
  have helement : element (write id c ++ t) = some (id, c, t) := by
    rw [write_of_short hc, List.cons_append, List.cons_append, element, hid, readLength_of_short hc]
    simp
  rw [expect, helement]
  exact if_pos rfl

theorem whole_write {id : UInt8} {c : List UInt8} (hid : knownId id = true) (hc : Short c) :
    whole id (write id c) = some c := by
  have hread := expect_write hid hc []
  rw [List.append_nil] at hread
  rw [whole, hread]

theorem readUnsigned_writeUnsigned {n : Nat} (hn : Short (unsignedContents n)) (t : List UInt8) :
    readUnsigned (writeUnsigned n ++ t) = some (n, t) := by
  rw [readUnsigned, writeUnsigned, expect_write rfl hn]
  simp [unsigned?_of_minimal (minimal_unsignedContents n)]

end Strict
end LedgerClient.Der

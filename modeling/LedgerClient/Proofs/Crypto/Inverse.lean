import Mathlib.Algebra.Field.ZMod
import Mathlib.Data.Int.ModEq
import Mathlib.Tactic.Linarith
import LedgerClient.Crypto.Ecdsa
/-!
# Inverses modulo a prime

Extended division ends before its steps run out (`inverseFrom_modEq`): each step at least halves the product of the two
numbers it works on.  So `inverse` is the inverse in the field of the prime (`inverse_cast`).
-/
namespace LedgerClient.Ecdsa

/-- A step at least halves the product of the two numbers. -/
theorem mul_emod_lt {a b : Int} (hb : 0 < b) (hba : b ≤ a) : 2 * (b * (a % b)) < a * b := by
  have hr : a % b < b := Int.emod_lt_of_pos a hb
  have hq : 1 ≤ a / b := (Int.le_ediv_iff_mul_le hb).2 (by omega)
  have hmul : b ≤ b * (a / b) := le_mul_of_one_le_right hb.le hq
  have ha : b * (a / b) + a % b = a := Int.mul_ediv_add_emod a b
  nlinarith

/-- **Extended division finds the greatest common divisor**, as a multiple of the number `c` it started from. -/
theorem inverseFrom_modEq {m c : Int} : ∀ (k : Nat) {a b u v : Int}, 0 < a → 0 ≤ b → b ≤ a → a * b < 2 ^ k →
    u * c ≡ a [ZMOD m] → v * c ≡ b [ZMOD m] → inverseFrom k a b u v * c ≡ Int.gcd a b [ZMOD m]
  | 0, a, b, u, v, ha, hb, _, hk, hu, _ => by
    have hb0 : b = 0 := by nlinarith
    rw [inverseFrom, hb0, Int.gcd_zero_right, Int.natAbs_of_nonneg ha.le]
    exact hu
  | k + 1, a, b, u, v, ha, hb, hba, hk, hu, hv => by
    unfold inverseFrom
    by_cases hb0 : b = 0
    · rw [if_pos hb0, hb0, Int.gcd_zero_right, Int.natAbs_of_nonneg ha.le]
      exact hu
    · have hpos : 0 < b := lt_of_le_of_ne hb (Ne.symm hb0)
      have hless : b * (a % b) < 2 ^ k := by
        have h := mul_emod_lt hpos hba
        rw [pow_succ] at hk
        omega
      have hnext : (u - a / b * v) * c ≡ a % b [ZMOD m] := by
        rw [Int.emod_def, sub_mul, mul_assoc, mul_comm b]
        exact hu.sub (hv.mul_left _)
      have hgcd : Int.gcd a b = Int.gcd b (a % b) := by
        rw [Int.gcd_comm b, Int.gcd_emod]
      rw [if_neg hb0, hgcd]
      exact inverseFrom_modEq k hpos (Int.emod_nonneg a hb0) (Int.emod_lt_of_pos a hpos).le hless hv hnext

/-- **The inverse in the field of the prime `n`.** -/
theorem inverse_cast {n : Nat} [hn : Fact n.Prime] {a : Nat} (h0 : 0 < a) (ha : a < n) :
    (inverse a n : ZMod n) = (a : ZMod n)⁻¹ := by
  have hpos : (0 : Int) < n := Int.natCast_pos.2 hn.out.pos
  have hcop : Int.gcd n a = 1 := by
    rw [Int.gcd_natCast_natCast]
    exact Nat.coprime_of_lt_prime h0.ne' ha hn.out
  have hfuel : (n : Int) * a < 2 ^ (2 * n.log2 + 3) := by
    have hlog : n < 2 ^ (n.log2 + 1) := Nat.lt_log2_self
    have hsq : n * a < 2 ^ (n.log2 + 1) * 2 ^ (n.log2 + 1) :=
      Nat.mul_lt_mul_of_lt_of_le hlog (by omega) (by positivity)
    have hle : 2 ^ (n.log2 + 1) * 2 ^ (n.log2 + 1) ≤ 2 ^ (2 * n.log2 + 3) := by
      rw [← pow_add]
      exact Nat.pow_le_pow_right (by omega) (by omega)
    exact_mod_cast hsq.trans_le hle
  -- the first step only turns the two numbers round
  have hfirst : inverseFrom (2 * n.log2 + 4) a n 1 0 = inverseFrom (2 * n.log2 + 3) n a 0 1 := by
    have hmod : (a : Int) % n = a := Int.emod_eq_of_lt (by omega) (by omega)
    rw [inverseFrom, if_neg hpos.ne', hmod, mul_zero, sub_zero]
  have hend := inverseFrom_modEq (m := n) (c := a) (u := 0) (v := 1) _ hpos (by omega) (by omega) hfuel
    (by rw [zero_mul]; exact (Int.modEq_zero_iff_dvd.2 dvd_rfl).symm) (by rw [one_mul])
  rw [hcop, ← hfirst, ← ZMod.intCast_eq_intCast_iff] at hend
  have hcast : (inverse a n : ZMod n) = (inverseFrom (2 * n.log2 + 4) a n 1 0 : Int) := by
    have hnn : 0 ≤ inverseFrom (2 * n.log2 + 4) a n 1 0 % n := Int.emod_nonneg _ hpos.ne'
    rw [inverse, ← Int.cast_natCast, Int.toNat_of_nonneg hnn, ZMod.intCast_mod]
  rw [hcast]
  refine eq_inv_of_mul_eq_one_left ?_
  simpa using hend

end LedgerClient.Ecdsa

import Mathlib.Tactic.Ring
import LedgerClient.Proofs.Crypto.Inverse
/-!
# Signatures over a lawful group

Where points and what is computed on them are those of a commutative group of prime order (`PointGroup.Lawful`), the
equation a signature is verified by is the one of the group (`Lawful.verify_iff`).  A signature and the one with the
smaller second number verify alike (`Lawful.verify_lowS`), since the point of the equation only changes its sign; and
what is signed with a key verifies (`Lawful.verify_signed`).
-/
namespace LedgerClient

open Ecdsa

/-- **A group behind the points**: `written` is how its members are written, and the base point stands for `gen`. -/
structure PointGroup.Lawful (g : PointGroup) {A : Type} [AddCommGroup A] (written : A → g.Point) (gen : A) : Prop where
  prime : g.order.Prime
  base_eq : written gen = g.base
  order_nsmul : g.order • gen = 0
  add_eq : ∀ a b, g.add (written a) (written b) = written (a + b)
  mul_eq : ∀ k a, g.mul k (written a) = written (k • a)
  abscissa_neg : ∀ a, g.abscissa? (written (-a)) = g.abscissa? (written a)

namespace Ecdsa

variable {A : Type} [AddCommGroup A] {n : Nat}

/-! ## Multiples by residues -/

theorem nsmul_mod {a : A} (ha : n • a = 0) (k : Nat) : (k % n) • a = k • a := by
  conv_rhs => rw [← Nat.mod_add_div k n, add_nsmul, mul_nsmul, ha, nsmul_zero, add_zero]

/-- Multiples depend on the residue only. -/
theorem nsmul_congr {a : A} (ha : n • a = 0) {j k : Nat} (h : (j : ZMod n) = k) : j • a = k • a := by
  rw [← nsmul_mod ha j, (ZMod.natCast_eq_natCast_iff' j k n).1 h, nsmul_mod ha]

theorem val_neg_nsmul [NeZero n] {a : A} (ha : n • a = 0) (x : ZMod n) : (-x).val • a = -(x.val • a) := by
  have hsum : ((-x).val + x.val) • a = 0 • a := nsmul_congr ha (by simp)
  rwa [add_nsmul, zero_nsmul, ← eq_neg_iff_add_eq_zero] at hsum

/-! ## The verification equation -/

/-- The point of the equation, for the digest `z`, the signature `σ` and the public point `q`. -/
def combination (n : Nat) (gen q : A) (z : Nat) (σ : Signature) : A :=
  ((z : ZMod n) * (σ.s : ZMod n)⁻¹).val • gen + ((σ.r : ZMod n) * (σ.s : ZMod n)⁻¹).val • q

/-- **The other second number turns the point round.** -/
theorem combination_neg [Fact n.Prime] {gen q : A} (hgen : n • gen = 0) (hq : n • q = 0) (z : Nat) {σ : Signature}
    (hs : σ.s ≤ n) : combination n gen q z { σ with s := n - σ.s } = -combination n gen q z σ := by
  have hcast : ((n - σ.s : Nat) : ZMod n) = -(σ.s : ZMod n) := by
    rw [Nat.cast_sub hs, ZMod.natCast_self, zero_sub]
  unfold combination
  rw [hcast, inv_neg, mul_neg, mul_neg, val_neg_nsmul hgen, val_neg_nsmul hq, neg_add]

/-- **The point of the equation of a signature** is the multiple by its secret number. -/
theorem combination_signed [Fact n.Prime] {gen : A} (hgen : n • gen = 0) {k key z : Nat} {σ : Signature}
    (hk : (k : ZMod n) ≠ 0) (hs0 : (σ.s : ZMod n) ≠ 0)
    (hs : (σ.s : ZMod n) = (k : ZMod n)⁻¹ * (z + σ.r * key)) : combination n gen (key • gen) z σ = k • gen := by
  have hsum : (z + σ.r * key : ZMod n) = k * σ.s := by
    rw [hs, mul_inv_cancel_left₀ hk]
  unfold combination
  rw [← mul_nsmul, ← add_nsmul]
  refine nsmul_congr hgen ?_
  push_cast [ZMod.natCast_zmod_val]
  calc (z * (σ.s : ZMod n)⁻¹ + key * (σ.r * (σ.s : ZMod n)⁻¹) : ZMod n)
      = (z + σ.r * key) * (σ.s : ZMod n)⁻¹ := by ring
    _ = k := by rw [hsum, mul_inv_cancel_right₀ hs0]

theorem cast_ne_zero_of_lt {s : Nat} (h0 : 0 < s) (hs : s < n) : (s : ZMod n) ≠ 0 := by
  rw [ne_eq, ZMod.natCast_eq_zero_iff]
  exact fun h => absurd (Nat.le_of_dvd h0 h) (by omega)

theorem val_mul_inverse [Fact n.Prime] (k : Nat) {s : Nat} (h0 : 0 < s) (hs : s < n) :
    k * inverse s n % n = ((k : ZMod n) * (s : ZMod n)⁻¹).val := by
  rw [← ZMod.val_natCast, Nat.cast_mul, inverse_cast h0 hs]

end Ecdsa

namespace PointGroup.Lawful

variable {g : PointGroup} {A : Type} [AddCommGroup A] {written : A → g.Point} {gen : A} (hg : g.Lawful written gen)

include hg

/-- **The verification equation**: the point of the equation has `r` as its coordinate, modulo the order. -/
theorem verify_iff {q : A} {digest : List UInt8} {σ : Signature} :
    verify g (written q) digest σ = true ↔ (0 < σ.r ∧ σ.r < g.order ∧ 0 < σ.s ∧ σ.s < g.order) ∧
      ∃ z, field? digest = some z ∧ ∃ x,
        g.abscissa? (written (combination g.order gen q (Der.ofBigEndian z) σ)) = some x ∧ x % g.order = σ.r := by
  have : Fact g.order.Prime := ⟨hg.prime⟩
  unfold verify
  cases hz : field? digest with
  | none => simp
  | some z =>
    by_cases hrange : 0 < σ.r ∧ σ.r < g.order ∧ 0 < σ.s ∧ σ.s < g.order
    · have hpoint : g.add (g.mul (Der.ofBigEndian z * inverse σ.s g.order % g.order) g.base)
          (g.mul (σ.r * inverse σ.s g.order % g.order) (written q)) =
          written (combination g.order gen q (Der.ofBigEndian z) σ) := by
        rw [val_mul_inverse _ hrange.2.2.1 hrange.2.2.2, val_mul_inverse _ hrange.2.2.1 hrange.2.2.2, ← hg.base_eq,
          hg.mul_eq, hg.mul_eq, hg.add_eq]
        rfl
      dsimp only
      rw [hpoint]
      have hin : σ.inRange g.order = true := by
        simp only [Signature.inRange, Bool.and_eq_true, decide_eq_true_eq]
        omega
      simp [hin, hrange, Option.any_eq_true]
    · have hout : σ.inRange g.order = false := by
        rw [Bool.eq_false_iff]
        simp only [Signature.inRange, ne_eq, Bool.and_eq_true, decide_eq_true_eq]
        omega
      simp [hout, hrange]

/-- **The smaller second number verifies just when the pair did.** -/
theorem verify_lowS {q : A} (hq : g.order • q = 0) (digest : List UInt8) (σ : Signature) :
    verify g (written q) digest (σ.lowS g.order) = verify g (written q) digest σ := by
  have : Fact g.order.Prime := ⟨hg.prime⟩
  unfold Signature.lowS
  by_cases hhigh : g.order / 2 < σ.s
  · rw [if_pos hhigh, Bool.eq_iff_iff, hg.verify_iff, hg.verify_iff]
    by_cases hs : σ.s < g.order
    · have hrange : (0 < g.order - σ.s ∧ g.order - σ.s < g.order) ↔ (0 < σ.s ∧ σ.s < g.order) := by omega
      have habscissa : ∀ z, g.abscissa? (written (combination g.order gen q z { σ with s := g.order - σ.s })) =
          g.abscissa? (written (combination g.order gen q z σ)) := fun z => by
        rw [combination_neg hg.order_nsmul hq z hs.le, hg.abscissa_neg]
      simp only [hrange, habscissa]
    · -- neither number is in range
      have hout : ¬ (0 < g.order - σ.s) := by omega
      exact iff_of_false (fun h => hout h.1.2.2.1) fun h => hs h.1.2.2.2
  · rw [if_neg hhigh]

/-- **What is signed verifies**: the point of the equation is the multiple that `r` was taken from. -/
theorem verify_of_signWith {key k : Nat} {digest z : List UInt8} {σ : Signature} (hz : field? digest = some z)
    (h0 : 0 < k) (hk : k < g.order) (h : signWith g key k z = some σ) :
    verify g (written (key • gen)) digest σ = true := by
  have : Fact g.order.Prime := ⟨hg.prime⟩
  unfold signWith at h
  cases hx : g.abscissa? (g.mul k g.base) with
  | none => simp [hx] at h
  | some x =>
    simp only [hx] at h
    split at h
    · cases h
    · rename_i hne
      simp only [Bool.or_eq_true, decide_eq_true_eq, not_or] at hne
      cases h
      have hpos : 0 < g.order := hg.prime.pos
      have hs := Nat.mod_lt (inverse k g.order * (Der.ofBigEndian z + x % g.order * key)) hpos
      have hs0 := cast_ne_zero_of_lt (Nat.pos_of_ne_zero hne.2) hs
      refine hg.verify_iff.2 ⟨⟨Nat.pos_of_ne_zero hne.1, Nat.mod_lt _ hpos, Nat.pos_of_ne_zero hne.2, hs⟩, z, hz, x, ?_,
        rfl⟩
      rw [← hx, ← hg.base_eq, hg.mul_eq, combination_signed hg.order_nsmul (cast_ne_zero_of_lt h0 hk) hs0 ?_]
      rw [ZMod.natCast_mod, Nat.cast_mul, inverse_cast h0 hk]
      push_cast
      rfl

end PointGroup.Lawful

namespace Ecdsa

theorem secretFrom_mem {n : Nat} (hn : 1 < n) : ∀ (fuel : Nat) (g : Generator),
    0 < secretFrom n fuel g ∧ secretFrom n fuel g < n
  | 0, _ => ⟨Nat.one_pos, hn⟩
  | fuel + 1, g => by
    unfold secretFrom
    dsimp only
    split
    · rename_i h
      simp only [Bool.and_eq_true, decide_eq_true_eq] at h
      exact h
    · exact secretFrom_mem hn fuel _

end Ecdsa

/-- **Signatures verify.** -/
theorem PointGroup.Lawful.verify_signed {g : PointGroup} {A : Type} [AddCommGroup A] {written : A → g.Point} {gen : A}
    (hg : g.Lawful written gen) {key : Nat} {digest : List UInt8} {σ : Signature} (h : sign? g key digest = some σ) :
    verify g (written (key • gen)) digest σ = true := by
  obtain ⟨z, hz, hσ⟩ := Option.bind_eq_some_iff.1 h
  obtain ⟨h0, hk⟩ := secretFrom_mem hg.prime.one_lt 64 (.start (bytes32 key ++ z))
  exact hg.verify_of_signWith hz h0 hk hσ

end LedgerClient

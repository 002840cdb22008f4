import Mathlib.AlgebraicGeometry.EllipticCurve.Affine.Point
import Mathlib.Tactic.FieldSimp
import LedgerClient.Proofs.Crypto.Ecdsa
import LedgerClient.Proofs.Crypto.Prime
/-!
# The group of P-256

What is computed on triples is the group of the curve: a triple stands for a point (`Triple.Stands`), and doubling,
adding and taking multiples keep that up (`Triple.Stands.double`, `Triple.Stands.add`, `Triple.Stands.multiple`).  So
`add` and `mul` are the sum and the multiples of points, and signatures are over a lawful group (`group_lawful`).
-/
namespace LedgerClient.P256

open WeierstrassCurve

/-- The field of coordinates. -/
abbrev Coordinate := ZMod p

/-- The constant of the curve. -/
def constant : Nat := 0x5AC635D8AA3A93E7B3EBBD55769886BC651D06B0CC53B0F63BCE3C3E27D2604B

/-- The curve `y² = x³ - 3x + constant`. -/
def curve : Affine Coordinate := ⟨0, 0, 0, -3, constant⟩

/-- The points of the curve, with Mathlib's group law. -/
abbrev CurvePoint := curve.Point

/-- A point by its coordinates, as numbers below `p`. -/
def written : CurvePoint → Point
  | .zero => none
  | .some x y _ => some (x.val, y.val)

theorem two_ne_zero : (2 : Coordinate) ≠ 0 := by
  have h : ¬ p ∣ 2 := by decide
  rwa [ne_eq, ← Nat.cast_ofNat, ZMod.natCast_eq_zero_iff]

theorem negY_eq (x y : Coordinate) : curve.negY x y = -y := by
  simp [Affine.negY, curve]

theorem addX_eq (x₁ x₂ ℓ : Coordinate) : curve.addX x₁ x₂ ℓ = ℓ ^ 2 - x₁ - x₂ := by
  simp [curve]

theorem addY_eq (x₁ x₂ y₁ ℓ : Coordinate) : curve.addY x₁ x₂ y₁ ℓ = ℓ * (x₁ - curve.addX x₁ x₂ ℓ) - y₁ := by
  rw [Affine.addY, negY_eq, Affine.negAddY]
  ring

theorem cast_sub {a c : Nat} (hc : c ≤ p) : (sub a c : Coordinate) = a - c := by
  rw [sub, ZMod.natCast_mod, Nat.cast_add, Nat.cast_sub hc, ZMod.natCast_self]
  ring

theorem sub_lt (a c : Nat) : sub a c < p := Nat.mod_lt _ prime_p.pos

theorem mod_lt (a : Nat) : a % p < p := Nat.mod_lt _ prime_p.pos

/-- A number below `p` is zero in the field only if it is zero. -/
theorem cast_eq_zero_iff {a : Nat} (ha : a < p) : (a : Coordinate) = 0 ↔ a = 0 := by
  rw [ZMod.natCast_eq_zero_iff]
  exact ⟨fun h => Nat.eq_zero_of_dvd_of_lt h ha, fun h => h ▸ dvd_zero p⟩

/-! ## Triples -/

/-- **A triple stands for a point** of the curve. -/
def Triple.Stands (t : Triple) : CurvePoint → Prop
  | .zero => t.z = 0
  | .some x y _ => t.z < p ∧ (t.z : Coordinate) ≠ 0 ∧ (t.x : Coordinate) = x * t.z ^ 2 ∧ (t.y : Coordinate) = y * t.z ^ 3

theorem Triple.stands_zero {t : Triple} (h : t.z = 0) : t.Stands 0 := h

theorem Triple.Stands.z_ne_zero {t : Triple} {x y : Coordinate} {hP : curve.Nonsingular x y}
    (h : t.Stands (.some x y hP)) : t.z ≠ 0 :=
  fun hz => h.2.1 (by rw [hz, Nat.cast_zero])

theorem stands_ofPoint : ∀ P : CurvePoint, (Triple.ofPoint (written P)).Stands P
  | .zero => rfl
  | .some x y h => by
    refine ⟨prime_p.one_lt, ?_, ?_, ?_⟩
    · rw [written, Triple.ofPoint, Nat.cast_one]
      exact one_ne_zero
    · rw [written, Triple.ofPoint, ZMod.natCast_zmod_val, Nat.cast_one, one_pow, mul_one]
    · rw [written, Triple.ofPoint, ZMod.natCast_zmod_val, Nat.cast_one, one_pow, mul_one]

/-! ## Doubling -/

section Double

variable {t : Triple} (hz : t.z ≠ 0)

/-- The slope of the tangent, up to a factor. -/
def Triple.tangent (t : Triple) : Coordinate := 3 * ((t.x - t.z ^ 2) * (t.x + t.z ^ 2))

include hz

theorem Triple.cast_double_x : (t.double.x : Coordinate) = t.tangent ^ 2 - 8 * t.x * t.y ^ 2 := by
  rw [Triple.double, if_neg hz, Triple.tangent]
  dsimp only
  rw [cast_sub (mod_lt _).le]
  push_cast [ZMod.natCast_mod, cast_sub (mod_lt _).le]
  ring

theorem Triple.cast_double_y :
    (t.double.y : Coordinate) = t.tangent * (4 * t.x * t.y ^ 2 - t.double.x) - 8 * t.y ^ 4 := by
  rw [cast_double_x hz, Triple.double, if_neg hz, Triple.tangent]
  dsimp only
  push_cast [ZMod.natCast_mod, cast_sub (mod_lt _).le, cast_sub (sub_lt _ _).le]
  ring

theorem Triple.cast_double_z : (t.double.z : Coordinate) = 2 * t.y * t.z := by
  rw [Triple.double, if_neg hz]
  dsimp only
  push_cast [ZMod.natCast_mod]
  ring

theorem Triple.double_z_lt : t.double.z < p := by
  rw [Triple.double, if_neg hz]
  exact mod_lt _

end Double

/-- **Doubling a triple doubles the point.** -/
theorem Triple.Stands.double {t : Triple} : ∀ {P : CurvePoint}, t.Stands P → t.double.Stands (P + P)
  | .zero, h => by
    have h0 : t.z = 0 := h
    rw [Triple.double, if_pos h0]
    exact h
  | .some x y hP, h => by
    have hz0 : t.z ≠ 0 := h.z_ne_zero
    obtain ⟨_, hz, hx, hy⟩ := h
    by_cases hy0 : y = 0
    · -- the tangent is upright
      rw [Affine.Point.add_self_of_Y_eq (by rw [negY_eq, hy0, neg_zero])]
      refine Triple.stands_zero ((cast_eq_zero_iff (Triple.double_z_lt hz0)).1 ?_)
      rw [Triple.cast_double_z hz0, hy, hy0]
      ring
    · have hne : y ≠ curve.negY x y := by
        rw [negY_eq]
        exact fun h => mul_ne_zero two_ne_zero hy0 (by linear_combination h)
      have hslope : curve.slope x x y y * (2 * y) = 3 * (x ^ 2 - 1) := by
        rw [Affine.slope_of_Y_ne rfl hne, negY_eq, sub_neg_eq_add, ← two_mul,
          div_mul_cancel₀ _ (mul_ne_zero two_ne_zero hy0)]
        simp only [curve]
        ring
      have htangent : t.tangent = curve.slope x x y y * (2 * t.y * t.z) := by
        rw [Triple.tangent, hx, hy]
        linear_combination -(t.z : Coordinate) ^ 4 * hslope
      have hx2 : (t.double.x : Coordinate) = curve.addX x x (curve.slope x x y y) * t.double.z ^ 2 := by
        rw [Triple.cast_double_x hz0, Triple.cast_double_z hz0, htangent, hx, addX_eq]
        ring
      rw [Affine.Point.add_self_of_Y_ne hne]
      refine ⟨Triple.double_z_lt hz0, ?_, hx2, ?_⟩
      · rw [Triple.cast_double_z hz0, hy]
        exact mul_ne_zero (mul_ne_zero two_ne_zero (mul_ne_zero hy0 (pow_ne_zero 3 hz))) hz
      · rw [Triple.cast_double_y hz0, hx2, Triple.cast_double_z hz0, htangent, hx, addY_eq]
        linear_combination -8 * (t.y : Coordinate) ^ 3 * hy

/-! ## Adding -/

section Add

variable (t u : Triple)

/-- How far the first coordinates are apart, up to a factor. -/
def Triple.run : Coordinate := u.x * t.z ^ 2 - t.x * u.z ^ 2

/-- How far the second coordinates are apart, up to a factor. -/
def Triple.rise : Coordinate := u.y * t.z ^ 3 - t.y * u.z ^ 3

variable {t u}

theorem Triple.sub_eq_zero_iff_run :
    sub (u.x * (t.z * t.z % p) % p) (t.x * (u.z * u.z % p) % p) = 0 ↔ t.run u = 0 := by
  rw [← cast_eq_zero_iff (sub_lt _ _), cast_sub (mod_lt _).le, Triple.run]
  push_cast [ZMod.natCast_mod]
  ring_nf

theorem Triple.sub_eq_zero_iff_rise :
    sub (u.y * (t.z * t.z % p) % p * t.z % p) (t.y * (u.z * u.z % p) % p * u.z % p) = 0 ↔ t.rise u = 0 := by
  rw [← cast_eq_zero_iff (sub_lt _ _), cast_sub (mod_lt _).le, Triple.rise]
  push_cast [ZMod.natCast_mod]
  ring_nf

variable (ht : t.z ≠ 0) (hu : u.z ≠ 0)

include ht hu

/-- Triples one above the other: the same point, or a point and its negative. -/
theorem Triple.add_of_run_eq_zero (h : t.run u = 0) : t.add u = if t.rise u = 0 then t.double else .zero := by
  rw [Triple.add, if_neg ht, if_neg hu]
  dsimp only
  rw [if_pos (Triple.sub_eq_zero_iff_run.2 h)]
  simp only [Triple.sub_eq_zero_iff_rise]

theorem Triple.cast_add_x (h : t.run u ≠ 0) :
    ((t.add u).x : Coordinate) = t.rise u ^ 2 - t.run u ^ 3 - 2 * t.x * u.z ^ 2 * t.run u ^ 2 := by
  rw [Triple.add, if_neg ht, if_neg hu]
  dsimp only
  rw [if_neg (mt Triple.sub_eq_zero_iff_run.1 h), Triple.rise, Triple.run]
  push_cast [ZMod.natCast_mod, cast_sub (mod_lt _).le]
  ring

theorem Triple.cast_add_y (h : t.run u ≠ 0) : ((t.add u).y : Coordinate) =
    t.rise u * (t.x * u.z ^ 2 * t.run u ^ 2 - (t.add u).x) - t.y * u.z ^ 3 * t.run u ^ 3 := by
  rw [cast_add_x ht hu h, Triple.add, if_neg ht, if_neg hu]
  dsimp only
  rw [if_neg (mt Triple.sub_eq_zero_iff_run.1 h), Triple.rise, Triple.run]
  push_cast [ZMod.natCast_mod, cast_sub (mod_lt _).le, cast_sub (sub_lt _ _).le]
  ring

theorem Triple.cast_add_z (h : t.run u ≠ 0) : ((t.add u).z : Coordinate) = t.z * u.z * t.run u := by
  rw [Triple.add, if_neg ht, if_neg hu]
  dsimp only
  rw [if_neg (mt Triple.sub_eq_zero_iff_run.1 h), Triple.run]
  push_cast [ZMod.natCast_mod, cast_sub (mod_lt _).le]
  ring

theorem Triple.add_z_lt (h : t.run u ≠ 0) : (t.add u).z < p := by
  rw [Triple.add, if_neg ht, if_neg hu]
  dsimp only
  rw [if_neg (mt Triple.sub_eq_zero_iff_run.1 h)]
  exact mod_lt _

end Add

section Finite

variable {t u : Triple} {x₁ y₁ x₂ y₂ : Coordinate} {hP : curve.Nonsingular x₁ y₁} {hQ : curve.Nonsingular x₂ y₂}
  (ht : t.Stands (.some x₁ y₁ hP)) (hu : u.Stands (.some x₂ y₂ hQ))

include ht hu

theorem Triple.Stands.run_eq : t.run u = (x₂ - x₁) * (t.z * u.z) ^ 2 := by
  rw [Triple.run, ht.2.2.1, hu.2.2.1]
  ring

theorem Triple.Stands.rise_eq : t.rise u = (y₂ - y₁) * (t.z * u.z) ^ 3 := by
  rw [Triple.rise, ht.2.2.2, hu.2.2.2]
  ring

/-- Points one above the other are the same, or negatives. -/
theorem Triple.Stands.add_of_eq (hx : x₁ = x₂) : (t.add u).Stands (.some x₁ y₁ hP + .some x₂ y₂ hQ) := by
  have hrun : t.run u = 0 := by rw [ht.run_eq hu, hx, sub_self, zero_mul]
  rw [Triple.add_of_run_eq_zero ht.z_ne_zero hu.z_ne_zero hrun]
  by_cases hy : y₁ = y₂
  · have hrise : t.rise u = 0 := by rw [ht.rise_eq hu, hy, sub_self, zero_mul]
    subst hx hy
    rw [if_pos hrise]
    exact ht.double
  · have hrise : t.rise u ≠ 0 := by
      rw [ht.rise_eq hu]
      exact mul_ne_zero (sub_ne_zero.2 (Ne.symm hy)) (pow_ne_zero 3 (mul_ne_zero ht.2.1 hu.2.1))
    have hneg : y₁ = curve.negY x₂ y₂ := (Affine.Y_eq_of_X_eq hP.left hQ.left hx).resolve_left hy
    rw [if_neg hrise, Affine.Point.add_of_Y_eq hx hneg]
    exact Triple.stands_zero rfl

/-- Other points have a line through them. -/
theorem Triple.Stands.add_of_ne (hx : x₁ ≠ x₂) : (t.add u).Stands (.some x₁ y₁ hP + .some x₂ y₂ hQ) := by
  have hz : (t.z * u.z : Coordinate) ≠ 0 := mul_ne_zero ht.2.1 hu.2.1
  have hrun : t.run u ≠ 0 := by
    rw [ht.run_eq hu]
    exact mul_ne_zero (sub_ne_zero.2 (Ne.symm hx)) (pow_ne_zero 2 hz)
  have hslope : curve.slope x₁ x₂ y₁ y₂ * (x₂ - x₁) = y₂ - y₁ := by
    rw [Affine.slope_of_X_ne hx, ← neg_sub x₁, mul_neg, div_mul_cancel₀ _ (sub_ne_zero.2 hx), neg_sub]
  have hrise : t.rise u = curve.slope x₁ x₂ y₁ y₂ * (t.z * u.z * t.run u) := by
    rw [ht.rise_eq hu, ht.run_eq hu]
    linear_combination -(t.z * u.z : Coordinate) ^ 3 * hslope
  have hz3 := Triple.cast_add_z ht.z_ne_zero hu.z_ne_zero hrun
  have hx3 : ((t.add u).x : Coordinate) = curve.addX x₁ x₂ (curve.slope x₁ x₂ y₁ y₂) * (t.add u).z ^ 2 := by
    rw [Triple.cast_add_x ht.z_ne_zero hu.z_ne_zero hrun, hz3, hrise, ht.2.2.1, addX_eq]
    linear_combination -(t.run u) ^ 2 * ht.run_eq hu
  rw [Affine.Point.add_of_X_ne hx]
  refine ⟨Triple.add_z_lt ht.z_ne_zero hu.z_ne_zero hrun, ?_, hx3, ?_⟩
  · rw [hz3]
    exact mul_ne_zero hz hrun
  · rw [Triple.cast_add_y ht.z_ne_zero hu.z_ne_zero hrun, hx3, hz3, hrise, ht.2.2.1, ht.2.2.2, addY_eq]
    ring

end Finite

/-- **Adding triples adds the points.** -/
theorem Triple.Stands.add {t u : Triple} : ∀ {P Q : CurvePoint}, t.Stands P → u.Stands Q → (t.add u).Stands (P + Q)
  | .zero, Q, ht, hu => by
    have ht0 : t.z = 0 := ht
    rw [Triple.add, if_pos ht0]
    exact (zero_add Q).symm ▸ hu
  | .some x₁ y₁ hP, .zero, ht, hu => by
    have hu0 : u.z = 0 := hu
    rw [Triple.add, if_neg ht.z_ne_zero, if_pos hu0]
    exact ht
  | .some x₁ y₁ hP, .some x₂ y₂ hQ, ht, hu => by
    by_cases hx : x₁ = x₂
    · exact ht.add_of_eq hu hx
    · exact ht.add_of_ne hu hx

/-! ## Multiples -/

theorem Triple.Stands.multiple {t : Triple} {P : CurvePoint} (ht : t.Stands P) :
    ∀ {i k : Nat}, k < 2 ^ i → (multiple t k i).Stands (k • P)
  | 0, k, hk => by
    have hk0 : k = 0 := by omega
    rw [hk0, zero_nsmul]
    exact Triple.stands_zero rfl
  | i + 1, k, hk => by
    have hhalf := ht.multiple (i := i) (k := k / 2) (by rw [pow_succ] at hk; omega)
    have hdouble := hhalf.double
    rw [← two_nsmul, ← mul_nsmul'] at hdouble
    -- twice the half of `k` is `k`, or one less where its last digit is one
    unfold P256.multiple
    dsimp only
    split
    · have hk1 : 2 * (k / 2) + 1 = k := by omega
      have hsum := hdouble.add ht
      rwa [← succ_nsmul, hk1] at hsum
    · have hk2 : 2 * (k / 2) = k := by omega
      rwa [hk2] at hdouble

/-! ## Points -/

/-- **Back from triples**: the point a triple stands for is written out. -/
theorem Triple.Stands.toPoint {t : Triple} : ∀ {P : CurvePoint}, t.Stands P → t.toPoint = written P
  | .zero, h => by
    have h0 : t.z = 0 := h
    rw [Triple.toPoint, if_pos h0]
    rfl
  | .some x y hP, h => by
    have h0 : t.z ≠ 0 := h.z_ne_zero
    obtain ⟨hlt, hz, hx, hy⟩ := h
    have hinv := Ecdsa.inverse_cast (n := p) (Nat.pos_of_ne_zero h0) hlt
    have hx' : t.x * (Ecdsa.inverse t.z p * Ecdsa.inverse t.z p % p) % p = x.val := by
      rw [← ZMod.val_natCast]
      push_cast [ZMod.natCast_mod]
      rw [hinv, hx]
      field_simp
    have hy' : t.y * (Ecdsa.inverse t.z p * Ecdsa.inverse t.z p % p) % p * Ecdsa.inverse t.z p % p = y.val := by
      rw [← ZMod.val_natCast]
      push_cast [ZMod.natCast_mod]
      rw [hinv, hy]
      field_simp
    rw [Triple.toPoint, if_neg h0]
    dsimp only
    rw [hx', hy']
    rfl

/-- **Sums are those of the curve.** -/
theorem add_written (P Q : CurvePoint) : add (written P) (written Q) = written (P + Q) :=
  ((stands_ofPoint P).add (stands_ofPoint Q)).toPoint

/-- **Multiples are those of the curve.** -/
theorem mul_written (k : Nat) (P : CurvePoint) : mul k (written P) = written (k • P) :=
  ((stands_ofPoint P).multiple Nat.lt_log2_self).toPoint

/-- A point and its negative have one first coordinate. -/
theorem abscissa_written_neg (P : CurvePoint) : group.abscissa? (written (-P)) = group.abscissa? (written P) := by
  cases P <;> rfl

theorem written_eq_none_iff {P : CurvePoint} : written P = none ↔ P = 0 := by
  cases P with
  | zero => exact ⟨fun _ => rfl, fun _ => rfl⟩
  | some x y hP =>
    exact ⟨fun h => (nomatch h), fun h => absurd h (Affine.Point.some_ne_zero hP)⟩

/-! ## The base point -/

def baseX : Nat := 48439561293906451759052585252797914202762949526041747995844080717082404635286

def baseY : Nat := 36134250956749795798585127919587881956611106672985015071877198253568414405109

theorem nonsingular_base : curve.Nonsingular baseX baseY := by
  have hcurve : baseY ^ 2 % p = (baseX ^ 3 + (p - 3) * baseX + constant) % p := by decide
  have hle : 3 ≤ p := by decide
  have hy : (baseY : Coordinate) ≠ 0 := mt (cast_eq_zero_iff (by decide)).1 (by decide)
  have heq : (baseY : Coordinate) ^ 2 = baseX ^ 3 - 3 * baseX + constant := by
    have h := (ZMod.natCast_eq_natCast_iff' _ _ p).2 hcurve
    push_cast [Nat.cast_sub hle, ZMod.natCast_self] at h
    rw [h]
    ring
  rw [Affine.nonsingular_iff, Affine.equation_iff]
  simp only [curve]
  refine ⟨by rw [zero_mul, zero_mul, zero_mul, heq]; ring, .inr fun h => ?_⟩
  exact mul_ne_zero two_ne_zero hy (by linear_combination h)

/-- The base point on the curve. -/
def generator : CurvePoint := .some _ _ nonsingular_base

theorem written_generator : written generator = base := by
  have hx : (baseX : Coordinate).val = baseX := ZMod.val_natCast_of_lt (by decide)
  have hy : (baseY : Coordinate).val = baseY := ZMod.val_natCast_of_lt (by decide)
  rw [generator, written, hx, hy]
  rfl

/-- **The base point has the order of the group.** -/
theorem order_nsmul_generator : order • generator = 0 := by
  rw [← written_eq_none_iff, ← mul_written, written_generator]
  decide +kernel

/-- **Points are those of the curve**, and so is what is computed on them. -/
theorem group_lawful : group.Lawful written generator where
  prime := prime_order
  base_eq := written_generator
  order_nsmul := order_nsmul_generator
  add_eq := add_written
  mul_eq := mul_written
  abscissa_neg := abscissa_written_neg

/-- The public point of a key is the multiple of the base point by its number. -/
theorem PrivateKey.publicPoint_eq (k : PrivateKey) : k.publicPoint = written (k.scalar • generator) := by
  rw [PrivateKey.publicPoint, ← written_generator, mul_written]

/-- **The verification equation on the curve**: with `z` for the digest, the point `(z / s) G + (r / s) Q` has a first
coordinate that is `r` modulo the order. -/
theorem PrivateKey.verify_iff {k : PrivateKey} {digest : List UInt8} {σ : Ecdsa.Signature} :
    Ecdsa.verify group k.publicPoint digest σ = true ↔
      (0 < σ.r ∧ σ.r < order ∧ 0 < σ.s ∧ σ.s < order) ∧ ∃ z, Ecdsa.field? digest = some z ∧ ∃ x y hP,
        Ecdsa.combination order generator (k.scalar • generator) (Der.ofBigEndian z) σ = .some x y hP ∧
          x.val % order = σ.r := by
  rw [k.publicPoint_eq, group_lawful.verify_iff]
  refine and_congr Iff.rfl (exists_congr fun z => and_congr Iff.rfl ?_)
  change (∃ x, group.abscissa? (written (Ecdsa.combination order generator (k.scalar • generator) _ σ)) = some x ∧ _) ↔ _
  generalize Ecdsa.combination order generator (k.scalar • generator) (Der.ofBigEndian z) σ = P
  cases P with
  | zero => simp [written, group]
  | some x y hP => simpa [written, group] using fun _ => hP

end LedgerClient.P256

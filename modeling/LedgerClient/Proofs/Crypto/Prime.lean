import Mathlib.NumberTheory.LucasPrimality
import Mathlib.Tactic.NormNum.Prime
import LedgerClient.Crypto.P256
/-!
# The two primes of P-256

The number of the field and the order of the group are prime (`prime_p`, `prime_order`).  Each comes with a number whose
powers run through all residues but zero, by Lucas' test, and the test needs the prime factors of the number before the
prime; those too large to try all divisors are certified in the same way (`Certificate.Holds`).
-/
namespace LedgerClient.P256

/-- `a ^ k % n`, by the `i` hexadecimal digits of `k`. -/
def powMod (n : Nat) : Nat → Nat → Nat → Nat
  | 0, _, _ => 1 % n
  | i + 1, a, k => powMod n i a (k / 16) ^ 16 * a ^ (k % 16) % n

theorem powMod_eq (n : Nat) : ∀ (i a k : Nat), k < 16 ^ i → powMod n i a k = a ^ k % n
  | 0, a, k, hk => by
    have hk0 : k = 0 := by omega
    rw [hk0, powMod, pow_zero]
  | i + 1, a, k, hk => by
    have hless : k / 16 < 16 ^ i := Nat.div_lt_of_lt_mul (by rwa [pow_succ, mul_comm] at hk)
    rw [powMod, powMod_eq n i a _ hless, Nat.mul_mod, ← Nat.pow_mod, ← Nat.mul_mod, ← pow_mul, ← pow_add,
      Nat.div_add_mod']

/-- How many hexadecimal digits are enough for the numbers below `n`. -/
def digits (n : Nat) : Nat := n.log2 / 4 + 1

theorem lt_pow_digits (n : Nat) : n < 16 ^ digits n := by
  have hlog : n < 2 ^ (n.log2 + 1) := Nat.lt_log2_self
  have hle : 2 ^ (n.log2 + 1) ≤ 2 ^ (4 * (n.log2 / 4 + 1)) := Nat.pow_le_pow_right (by omega) (by omega)
  rw [digits, show 16 = 2 ^ 4 from rfl, ← pow_mul]
  exact hlog.trans_le hle

theorem natCast_pow_eq_one_iff {n : Nat} (hn : 1 < n) {a k : Nat} (hk : k < n) :
    (a : ZMod n) ^ k = 1 ↔ powMod n (digits n) a k = 1 := by
  rw [powMod_eq n _ a k (hk.trans (lt_pow_digits n)), ← Nat.cast_pow, ← Nat.cast_one, ZMod.natCast_eq_natCast_iff',
    Nat.mod_eq_of_lt hn]

/-! ## Certificates -/

/-- A number, a root whose powers run through the residues, and the prime factors of the number before it with how often
each divides. -/
structure Certificate where
  number : Nat
  root : Nat
  factors : List (Nat × Nat)

/-- The product of the factors. -/
def product : List (Nat × Nat) → Nat
  | [] => 1
  | (q, e) :: fs => q ^ e * product fs

theorem exists_of_dvd_product {q : Nat} (hq : q.Prime) : ∀ {fs : List (Nat × Nat)}, (∀ f ∈ fs, f.1.Prime) →
    q ∣ product fs → ∃ f ∈ fs, f.1 = q
  | [], _, h => absurd (Nat.dvd_one.1 h) hq.ne_one
  | (x, e) :: fs, hfs, h => by
    obtain ⟨hx, hfs⟩ := List.forall_mem_cons.1 hfs
    rcases hq.dvd_mul.1 h with h | h
    · exact ⟨(x, e), List.mem_cons_self, ((Nat.prime_dvd_prime_iff_eq hq hx).1 (hq.dvd_of_dvd_pow h)).symm⟩
    · obtain ⟨f, hf, hfq⟩ := exists_of_dvd_product hq hfs h
      exact ⟨f, List.mem_cons_of_mem _ hf, hfq⟩

/-- Lucas' test, where the numbers in `known` are known to be prime. -/
def Certificate.Holds (known : List Nat) (c : Certificate) : Prop :=
  1 < c.number ∧ product c.factors = c.number - 1 ∧
    powMod c.number (digits c.number) c.root (c.number - 1) = 1 ∧
    ∀ f ∈ c.factors, f.1 ∈ known ∧ powMod c.number (digits c.number) c.root ((c.number - 1) / f.1) ≠ 1

instance (known : List Nat) (c : Certificate) : Decidable (c.Holds known) :=
  inferInstanceAs (Decidable (_ ∧ _ ∧ _ ∧ _))

/-- **A certificate that holds certifies a prime.** -/
theorem Certificate.Holds.prime {known : List Nat} {c : Certificate} (hc : c.Holds known)
    (hknown : ∀ q ∈ known, q.Prime) : c.number.Prime := by
  obtain ⟨hone, hproduct, hall, hfactors⟩ := hc
  refine lucas_primality c.number c.root ?_ fun q hq hdvd => ?_
  · exact (natCast_pow_eq_one_iff hone (by omega)).2 hall
  · rw [← hproduct] at hdvd
    obtain ⟨f, hf, rfl⟩ := exists_of_dvd_product hq (fun f hf => hknown _ (hfactors f hf).1) hdvd
    have hlt : (c.number - 1) / f.1 < c.number := (Nat.div_le_self _ _).trans_lt (by omega)
    exact fun h => (hfactors f hf).2 ((natCast_pow_eq_one_iff hone hlt).1 h)

/-- Each certificate holds, where the numbers of those before it are known too. -/
def Chain : List Nat → List Certificate → Prop
  | _, [] => True
  | known, c :: cs => c.Holds known ∧ Chain (c.number :: known) cs

instance Chain.decidable : (known : List Nat) → (cs : List Certificate) → Decidable (Chain known cs)
  | _, [] => .isTrue trivial
  | known, c :: cs => @instDecidableAnd _ _ inferInstance (Chain.decidable (c.number :: known) cs)

theorem Chain.prime : ∀ {known : List Nat} {cs : List Certificate}, Chain known cs → (∀ q ∈ known, q.Prime) →
    ∀ c ∈ cs, c.number.Prime
  | _, [], _, _ => by simp
  | _, c :: _, ⟨hc, hcs⟩, hknown => by
    have hprime : c.number.Prime := hc.prime hknown
    exact List.forall_mem_cons.2 ⟨hprime, hcs.prime (List.forall_mem_cons.2 ⟨hprime, hknown⟩)⟩

/-! ## The certified numbers -/

/-- The primes small enough to try all divisors. -/
def smallPrimes : List Nat := [
  2, 3, 5, 7, 11, 17, 23, 29, 41, 43, 53, 71, 107, 127, 131, 173, 197, 257, 311, 373, 641, 1297, 1531, 2411, 3023, 3407,
  3677, 3769, 16879, 17449, 18169, 38189, 65537, 78283, 126241, 155317, 490463, 704251, 3969899, 6700417, 9350987]

theorem smallPrimes_prime : ∀ q ∈ smallPrimes, q.Prime := by
  simp only [smallPrimes, List.forall_mem_cons]
  norm_num

/-- Towards the number of the field. -/
def fieldCertificates : List Certificate := [
  ⟨204061199, 11, [(2, 1), (11, 1), (23, 1), (107, 1), (3769, 1)]⟩,
  ⟨34282281433, 17, [(2, 3), (3, 1), (7, 1), (204061199, 1)]⟩,
  ⟨66417393611, 6, [(2, 1), (5, 1), (53, 1), (173, 1), (197, 1), (3677, 1)]⟩,
  ⟨11290956913871, 13, [(2, 1), (5, 1), (17, 1), (66417393611, 1)]⟩,
  ⟨46076956964474543, 5, [(2, 1), (23, 1), (18169, 1), (78283, 1), (704251, 1)]⟩,
  ⟨774023187263532362759620327192479577272145303, 3,
    [(2, 1), (3, 2), (2411, 1), (34282281433, 1), (11290956913871, 1), (46076956964474543, 1)]⟩,
  ⟨835945042244614951780389953367877943453916927241, 11,
    [(2, 3), (3, 3), (5, 1), (774023187263532362759620327192479577272145303, 1)]⟩,
  ⟨p, 6, [(2, 1), (3, 1), (5, 2), (17, 1), (257, 1), (641, 1), (1531, 1), (65537, 1), (490463, 1), (6700417, 1),
    (835945042244614951780389953367877943453916927241, 1)]⟩]

/-- Towards the order of the group. -/
def orderCertificates : List Certificate := [
  ⟨187019741, 2, [(2, 2), (5, 1), (9350987, 1)]⟩,
  ⟨311245691, 2, [(2, 1), (5, 1), (7, 1), (17, 1), (29, 2), (311, 1)]⟩,
  ⟨622491383, 5, [(2, 1), (311245691, 1)]⟩,
  ⟨1002328039319, 19, [(2, 1), (126241, 1), (3969899, 1)]⟩,
  ⟨191039911, 3, [(2, 1), (3, 1), (5, 1), (41, 1), (155317, 1)]⟩,
  ⟨208150935158385979, 2, [(2, 1), (3, 1), (11, 1), (43, 1), (127, 1), (3023, 1), (191039911, 1)]⟩,
  ⟨2624747550333869278416773953, 7, [(2, 6), (3, 2), (1297, 1), (16879, 1), (208150935158385979, 1)]⟩,
  ⟨order, 7, [(2, 4), (3, 1), (71, 1), (131, 1), (373, 1), (3407, 1), (17449, 1), (38189, 1), (187019741, 1),
    (622491383, 1), (1002328039319, 1), (2624747550333869278416773953, 1)]⟩]

/-- **The number of the field is prime.** -/
theorem prime_p : p.Prime := by
  have hchain : Chain smallPrimes fieldCertificates := by
    set_option maxRecDepth 4000 in decide
  exact hchain.prime smallPrimes_prime ⟨p, _, _⟩ (List.mem_of_getLast? rfl)

/-- **The order of the group is prime.** -/
theorem prime_order : order.Prime := by
  have hchain : Chain smallPrimes orderCertificates := by
    set_option maxRecDepth 4000 in decide
  exact hchain.prime smallPrimes_prime ⟨order, _, _⟩ (List.mem_of_getLast? rfl)

instance : Fact p.Prime := ⟨prime_p⟩

instance : Fact order.Prime := ⟨prime_order⟩

end LedgerClient.P256

import LockingScript.Curve.Field
import Mathlib.FieldTheory.Finite.Basic
import Mathlib.NumberTheory.LucasPrimality
import Mathlib.Tactic.NormNum.Prime

/-!
# Square roots of coordinates

The order of the coordinate field is prime, by Lucas's test on it and on the large prime factors of
its predecessor. The candidate for a root of a square is therefore one of the two roots.
-/

namespace LockingScript.Curve

theorem powMod_eq (m b e : Nat) : powMod m b e = b ^ e % m := by
  induction e using Nat.strongRecOn generalizing b with
  | ind e ih =>
    rw [powMod]
    by_cases zero : e = 0
    · simp [zero]
    · have square : (b * b % m) ^ (e / 2) % m = b ^ (2 * (e / 2)) % m := by
        rw [← Nat.pow_mod, ← Nat.pow_two, ← Nat.pow_mul]
      have half := (ih (e / 2) (by omega) (b * b % m)).trans square
      simp only [if_neg zero, half]
      by_cases odd : e % 2 = 1
      · have e_eq : e = 2 * (e / 2) + 1 := by omega
        rw [if_pos odd, Nat.mul_mod_mod]
        conv => rhs; rw [e_eq, Nat.pow_succ, Nat.mul_comm]
      · have e_eq : e = 2 * (e / 2) := by omega
        rw [if_neg odd]
        conv => rhs; rw [e_eq]

theorem powMod_eq_one_iff {m : Nat} (large : 1 < m) (b e : Nat) :
    powMod m b e = 1 ↔ (b : ZMod m) ^ e = 1 := by
  have one : ((1 : Nat) : ZMod m) = 1 := Nat.cast_one
  rw [powMod_eq, ← Nat.cast_pow, ← one, ZMod.natCast_eq_natCast_iff', Nat.mod_eq_of_lt large]

/-- Lucas's test of `p`, given what may be the prime factors of its predecessor. -/
def PassesLucasTest (p base : Nat) (factors : List Nat) : Prop :=
  1 < p ∧ factors.prod = p - 1 ∧ powMod p base (p - 1) = 1 ∧
    ∀ q ∈ factors, powMod p base ((p - 1) / q) ≠ 1

instance (p base : Nat) (factors : List Nat) : Decidable (PassesLucasTest p base factors) :=
  inferInstanceAs (Decidable (_ ∧ _))

theorem prime_of_passesLucasTest {p : Nat} (base : Nat) (factors : List Nat)
    (passes : PassesLucasTest p base factors) (primes : ∀ q ∈ factors, q.Prime) : p.Prime := by
  obtain ⟨large, product, whole, parts⟩ := passes
  refine lucas_primality p base ((powMod_eq_one_iff large _ _).mp whole) ?_
  intro q prime divides one
  rw [← product] at divides
  obtain ⟨factor, membership, divides⟩ := prime.prime.dvd_prod_iff.mp divides
  have same : q = factor := (Nat.prime_dvd_prime_iff_eq prime (primes factor membership)).mp divides
  subst same
  exact parts q membership ((powMod_eq_one_iff large _ _).mpr one)

theorem prime_fieldOrder : fieldOrder.Prime := by
  have first : Nat.Prime 173378833005251801 :=
    prime_of_passesLucasTest 6 [2, 2, 2, 5, 5, 2621, 24809, 13331831]
      (by decide +kernel) (by norm_num)
  have second : Nat.Prime 22149492674086928081353 :=
    prime_of_passesLucasTest 5 [173378833005251801, 2, 2, 2, 3, 5323]
      (by decide +kernel) (List.forall_mem_cons.mpr ⟨first, by norm_num⟩)
  have third : Nat.Prime 132896956044521568488119 :=
    prime_of_passesLucasTest 6 [22149492674086928081353, 2, 3]
      (by decide +kernel) (List.forall_mem_cons.mpr ⟨second, by norm_num⟩)
  have fourth : Nat.Prime 255515944373312847190720520512484175977 :=
    prime_of_passesLucasTest 3
      [2, 2, 2, 7, 7, 11, 1627, 2657, 4423, 41201, 96557, 7240687, 107590001]
      (by decide +kernel) (by norm_num)
  have fifth :
      Nat.Prime 205115282021455665897114700593932402728804164701536103180137503955397371 :=
    prime_of_passesLucasTest 10
      [132896956044521568488119, 255515944373312847190720520512484175977, 2, 3, 5, 29, 29, 31, 7723]
      (by decide +kernel)
      (List.forall_mem_cons.mpr ⟨third, List.forall_mem_cons.mpr ⟨fourth, by norm_num⟩⟩)
  exact prime_of_passesLucasTest 3
    [205115282021455665897114700593932402728804164701536103180137503955397371, 2, 3, 7, 13441]
    (by decide +kernel) (List.forall_mem_cons.mpr ⟨fifth, by norm_num⟩)

theorem sqrtCandidate_lt (a : Nat) : sqrtCandidate a < fieldOrder := by
  rw [sqrtCandidate, powMod_eq]
  exact Nat.mod_lt _ (by decide)

/-- The candidate for a root of a square is the number that was squared, or its negative. -/
theorem sqrtCandidate_square {y : Nat} (lt : y < fieldOrder) :
    sqrtCandidate (y * y % fieldOrder) = y ∨
      sqrtCandidate (y * y % fieldOrder) + y = fieldOrder := by
  have : Fact fieldOrder.Prime := ⟨prime_fieldOrder⟩
  have rootLt := sqrtCandidate_lt (y * y % fieldOrder)
  generalize root_eq : sqrtCandidate (y * y % fieldOrder) = root at rootLt ⊢
  have power : (root : ZMod fieldOrder) = (y ^ 2) ^ ((fieldOrder + 1) / 4) := by
    rw [← root_eq, sqrtCandidate, powMod_eq, ZMod.natCast_mod, Nat.cast_pow, ZMod.natCast_mod,
      Nat.cast_mul, ← pow_two]
  have squares : (root : ZMod fieldOrder) ^ 2 = (y : ZMod fieldOrder) ^ 2 := by
    have exponent : 2 * ((fieldOrder + 1) / 4 * 2) = fieldOrder + 1 := by decide
    calc (root : ZMod fieldOrder) ^ 2 = (y : ZMod fieldOrder) ^ (fieldOrder + 1) := by
          rw [power, ← pow_mul, ← pow_mul, exponent]
      _ = (y : ZMod fieldOrder) ^ 2 := by rw [pow_succ, ZMod.pow_card, pow_two]
  rcases sq_eq_sq_iff_eq_or_eq_neg.mp squares with same | opposite
  · left
    have congruent := (ZMod.natCast_eq_natCast_iff' root y fieldOrder).mp same
    rwa [Nat.mod_eq_of_lt rootLt, Nat.mod_eq_of_lt lt] at congruent
  · have vanishes : ((root + y : Nat) : ZMod fieldOrder) = 0 := by
      rw [Nat.cast_add, opposite, neg_add_cancel]
    obtain ⟨k, multiple⟩ := (ZMod.natCast_eq_zero_iff _ _).mp vanishes
    have small : k < 2 := by
      by_contra large
      have : fieldOrder * 2 ≤ fieldOrder * k := Nat.mul_le_mul_left _ (by omega)
      omega
    rcases (by omega : k = 0 ∨ k = 1) with rfl | rfl
    · left
      omega
    · right
      omega

end LockingScript.Curve

import BlockPlay.Decimal.Binary
import Mathlib.Algebra.Order.Field.Power
import Mathlib.Algebra.Order.Ring.Rat
import Mathlib.Data.Nat.Factorization.Basic
import Mathlib.Tactic.Linarith
import Mathlib.Tactic.Ring

/-!
The rational numbers that exact forms stand for. A form that stands for a whole number rounds to it, and a
form of at most 53 bits is divided by a whole number without a remainder if the quotient is whole.
-/
namespace BlockPlay.Decimal

theorem pow2_pos (n : Nat) : 0 < pow2 n := Nat.two_pow_pos n

theorem cast_pow2 (n : Nat) : (pow2 n : ℚ) = 2 ^ n := by
  simp [pow2]

theorem zpow_two (e : Int) : (2 : ℚ) ^ e = pow2 e.toNat / pow2 (-e).toNat := by
  rw [cast_pow2, cast_pow2]
  obtain ⟨n, rfl | rfl⟩ := Int.eq_nat_or_neg e
  · simp
  · simp

/-- The powers of two in a divisor are made up for by as many bits as it has. -/
theorem dvd_mul_pow2 {d m s t : Nat} (positive : 0 < d) (enough : d.log2 ≤ s) (divides : d ∣ m * pow2 t) :
    d ∣ m * pow2 s := by
  obtain ⟨j, odd, isOdd, rfl⟩ := Nat.exists_eq_two_pow_mul_odd positive.ne'
  have coprime : Nat.Coprime odd (2 ^ t) := (Nat.coprime_two_right.mpr isOdd).pow_right t
  have inside : odd ∣ m := coprime.dvd_of_dvd_mul_right (dvd_of_mul_left_dvd divides)
  have few : j ≤ s := by
    have bound : 2 ^ j ≤ 2 ^ j * odd := Nat.le_mul_of_pos_right _ isOdd.pos
    exact ((Nat.le_log2 positive.ne').mpr bound).trans enough
  rw [mul_comm m]
  exact Nat.mul_dvd_mul (pow_dvd_pow 2 few) inside

namespace Binary

theorem nearestEven_of_dvd {num den : Nat} (positive : 0 < den) (divides : den ∣ num) :
    nearestEven num den = num / den := by
  simp [nearestEven, Nat.mod_eq_zero_of_dvd divides, positive]

/-- The number that a form stands for. -/
def value (b : Binary) : ℚ := b.signed b.mantissa * 2 ^ b.exponent

theorem signed_mul (b : Binary) (m n : Nat) : b.signed (m * n) = b.signed m * n := by
  unfold signed
  split <;> push_cast <;> ring

theorem signed_eq_mul {b : Binary} {m d : Nat} {n : Int} (positive : 0 < d) (same : b.signed m = n * d) :
    m = n.natAbs * d ∧ b.signed n.natAbs = n := by
  have size : m = n.natAbs * d := by
    have absolute : (b.signed m).natAbs = m := by
      unfold signed
      split <;> simp
    rw [← absolute, same, Int.natAbs_mul, Int.natAbs_natCast]
  refine ⟨size, ?_⟩
  rw [size, signed_mul] at same
  exact Int.eq_of_mul_eq_mul_right (Int.natCast_pos.mpr positive).ne' same

theorem value_eq_intCast_iff {b : Binary} {n : Int} : b.value = n ↔
    b.signed (b.mantissa * pow2 b.exponent.toNat) = n * pow2 (-b.exponent).toNat := by
  have positive : (pow2 (-b.exponent).toNat : ℚ) ≠ 0 := Nat.cast_ne_zero.mpr (pow2_pos _).ne'
  rw [value, zpow_two, mul_div_assoc', div_eq_iff positive, signed_mul]
  exact_mod_cast Iff.rfl

theorem distance_eq_zero_iff {b : Binary} {n : Int} : b.distance n = 0 ↔ b.value = n := by
  rw [value_eq_intCast_iff, distance, Int.natAbs_eq_zero, sub_eq_zero]

theorem round_of_value {b : Binary} {n : Int} (whole : b.value = n) : b.round = n := by
  have positive := pow2_pos (-b.exponent).toNat
  obtain ⟨size, sign⟩ := signed_eq_mul positive (value_eq_intCast_iff.mp whole)
  have nearest : (2 * (b.mantissa * pow2 b.exponent.toNat) + pow2 (-b.exponent).toNat) /
      (2 * pow2 (-b.exponent).toNat) = n.natAbs := by
    rw [size]
    refine Nat.div_eq_of_lt_le ?_ ?_ <;> nlinarith
  rw [round, nearest, sign]

theorem truncate_of_value {b : Binary} {n : Int} (whole : b.value = n) : b.truncate = n := by
  have positive := pow2_pos (-b.exponent).toNat
  obtain ⟨size, sign⟩ := signed_eq_mul positive (value_eq_intCast_iff.mp whole)
  rw [truncate, size, Nat.mul_div_cancel _ positive, sign]

theorem not_fartherThan {b : Binary} {n : Int} (whole : b.value = n) (bound : Binary) :
    b.fartherThan n bound = false := by
  have none := distance_eq_zero_iff.mpr whole
  simp [fartherThan, none]

/-- A division first widens the mantissa by so many bits that at least 53 are left. -/
theorem divide_eq {b : Binary} {d : Nat} (some : b.mantissa ≠ 0) (small : b.mantissa < pow2 53) :
    ∃ s, d.log2 ≤ s ∧ b.divide d =
      { b with mantissa := nearestEven (b.mantissa * pow2 s) d, exponent := b.exponent - s } := by
  have bits : b.mantissa.log2 < 53 := (Nat.log2_lt some).mpr small
  have widened : ∀ shift : Int, shift ≤ -d.log2 → ∃ s : Nat, d.log2 ≤ s ∧
      ({ b with
        mantissa := nearestEven (b.mantissa * pow2 (-shift).toNat) (d * pow2 shift.toNat)
        exponent := b.exponent + shift } : Binary) =
      { b with mantissa := nearestEven (b.mantissa * pow2 s) d, exponent := b.exponent - s } := by
    intro shift low
    have none : shift.toNat = 0 := by omega
    refine ⟨(-shift).toNat, by omega, ?_⟩
    have exponent : b.exponent + shift = b.exponent - ((-shift).toNat : Int) := by omega
    rw [none, exponent]
    simp [pow2]
  simp only [divide, beq_iff_eq, some, if_false]
  split
  · exact widened _ (by omega)
  · exact widened _ (by omega)

theorem value_divide {b : Binary} {d : Nat} {k : Int} (small : b.mantissa < pow2 53) (positive : 0 < d)
    (whole : b.value = d * k) : (b.divide d).value = k := by
  have nonzero : (d : ℚ) ≠ 0 := Nat.cast_ne_zero.mpr positive.ne'
  by_cases some : b.mantissa = 0
  · have zero : b.value = 0 := by simp [value, signed, some]
    have stays : b.divide d = b := by simp [divide, some]
    rw [zero, eq_comm, mul_eq_zero, or_iff_right nonzero] at whole
    rw [stays, zero, whole]
  · obtain ⟨s, enough, divided⟩ := divide_eq (d := d) some small
    have product : b.value = ((k * d : Int) : ℚ) := by
      rw [whole]
      push_cast
      ring
    obtain ⟨size, -⟩ := signed_eq_mul (pow2_pos _) (value_eq_intCast_iff.mp product)
    have divides : d ∣ b.mantissa * pow2 b.exponent.toNat := by
      rw [size, Int.natAbs_mul, Int.natAbs_natCast]
      exact ⟨k.natAbs * pow2 (-b.exponent).toNat, by ring⟩
    obtain ⟨q, quotient⟩ := dvd_mul_pow2 positive enough divides
    have exact : nearestEven (b.mantissa * pow2 s) d = q := by
      rw [nearestEven_of_dvd positive ⟨q, quotient⟩, quotient, Nat.mul_div_cancel_left q positive]
    have signed : (b.signed q * d : ℚ) = b.signed b.mantissa * 2 ^ s := by
      rw [← cast_pow2]
      exact_mod_cast (signed_mul b q d).symm.trans
        ((congrArg b.signed ((mul_comm q d).trans quotient.symm)).trans (signed_mul b _ _))
    have power : (2 : ℚ) ^ (b.exponent - s) * 2 ^ s = 2 ^ b.exponent := by
      rw [← zpow_natCast, ← zpow_add₀ two_ne_zero, sub_add_cancel]
    rw [divided, exact]
    refine mul_right_cancel₀ nonzero ?_
    calc (b.signed q : ℚ) * 2 ^ (b.exponent - s) * d
        = b.signed q * d * 2 ^ (b.exponent - s) := by ring
      _ = b.signed b.mantissa * (2 ^ (b.exponent - s) * 2 ^ s) := by rw [signed]; ring
      _ = k * d := by rw [power, mul_comm (k : ℚ), ← whole, value]

end Binary

/-- The number that a finite float is. -/
def value? (x : Float) : Option ℚ := (Binary.ofFloat? x).map Binary.value

theorem clampWhole_truncate {x : Float} {low high n : Int} (whole : value? x = some (n : ℚ)) :
    clampWhole low high Binary.truncate x = max low (min high n) := by
  obtain ⟨b, form, value⟩ := Option.map_eq_some_iff.mp whole
  rw [clampWhole, form]
  exact congrArg (max low <| min high ·) (Binary.truncate_of_value value)

end BlockPlay.Decimal

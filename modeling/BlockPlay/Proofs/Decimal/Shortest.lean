import BlockPlay.Decimal.Numeral
import BlockPlay.Decimal.Shortest
import BlockPlay.Proofs.Decimal.Scientific

/-!
The fewest digits read back. Whatever grid they are found on, and also where none serves, they stand for a
number to which the float is the nearest.
-/
namespace BlockPlay.Decimal

theorem cast_pow10 (n : Nat) : (pow10 n : ℚ) = 10 ^ n := by
  simp [pow10]

theorem zpow_ten (e : Int) : (10 : ℚ) ^ e = pow10 e.toNat / pow10 (-e).toNat := by
  rw [cast_pow10, cast_pow10]
  obtain ⟨n, rfl | rfl⟩ := Int.eq_nat_or_neg e
  · simp
  · simp

/-- The number that digits stand for. -/
def Digits.value (d : Digits) : ℚ := d.digits * 10 ^ d.exponent

theorem compareScaled_eq (a : Nat) (i : Int) (n : Nat) (j : Int) :
    compareScaled a i n j = compare (a * 10 ^ i : ℚ) (n * 2 ^ j) := by
  have tens : (0 : ℚ) < pow10 (-i).toNat := Nat.cast_pos.mpr (Nat.pow_pos (by decide))
  have twos : (0 : ℚ) < pow2 (-j).toNat := Nat.cast_pos.mpr (pow2_pos _)
  have left : ((a * pow10 i.toNat * pow2 (-j).toNat : ℕ) : ℚ) =
      (pow10 (-i).toNat * pow2 (-j).toNat : ℚ) * (a * 10 ^ i) := by
    rw [zpow_ten]
    push_cast
    field_simp
  have right : ((n * pow2 j.toNat * pow10 (-i).toNat : ℕ) : ℚ) =
      (pow10 (-i).toNat * pow2 (-j).toNat : ℚ) * (n * 2 ^ j) := by
    rw [zpow_two]
    push_cast
    field_simp
  rw [compareScaled, ← cmp_eq_compare, ← cmp_eq_compare, ← Nat.strictMono_cast (α := ℚ) |>.cmp_map_eq,
    left, right, cmp_mul_pos_left (mul_pos tens twos)]

namespace Binary

variable {b : Binary}

theorem narrowBelow_iff : b.narrowBelow ↔ b.mantissa = pow2 52 ∧ -1074 < b.exponent := by
  simp [narrowBelow]

/-- The lower end of the decimals that read back, in quarters of the last place. -/
theorem low_end (positive : 0 < b.mantissa) :
    ((if b.narrowBelow then 4 * b.mantissa - 1 else 4 * b.mantissa - 2 : ℕ) : ℚ) =
      4 * (b.mantissa - b.reach) := by
  simp only [reach, narrowBelow_iff]
  split
  · rw [Nat.cast_sub (by omega)]
    push_cast
    ring
  · rw [Nat.cast_sub (by omega)]
    push_cast
    ring

theorem nearest_of_readsBack (positive : 0 < b.mantissa) {d : Digits} (reads : b.readsBack d) :
    b.Nearest (d.value / 2 ^ b.exponent) := by
  have unit : (0 : ℚ) < 2 ^ b.exponent := zpow_pos two_pos _
  have quarter (q : ℚ) : 4 * q * 2 ^ (b.exponent - 2) = q * 2 ^ b.exponent := by
    rw [zpow_sub₀ two_ne_zero]
    norm_num
    ring
  have high : ((4 * b.mantissa + 2 : ℕ) : ℚ) = 4 * (b.mantissa + 1 / 2) := by
    push_cast
    ring
  simp only [readsBack, compareScaled_eq, low_end positive, high, quarter] at reads
  simp only [Bool.and_eq_true, Bool.or_eq_true, beq_iff_eq, compare_gt_iff_gt, compare_eq_iff_eq,
    compare_lt_iff_lt, ← div_lt_iff₀ unit, ← lt_div_iff₀ unit, ← div_eq_iff unit.ne'] at reads
  change (_ < d.value / _ ∨ _ ∧ d.value / _ = _) ∧ _ at reads
  obtain ⟨fromLow, toHigh⟩ := reads
  refine ⟨?_, ?_, ?_⟩
  · rcases toHigh with less | ⟨-, same⟩
    · exact less.le
    · exact same.le
  · rcases fromLow with more | ⟨-, same⟩
    · exact more.le
    · exact same.ge
  · rintro (same | same)
    · rcases toHigh with less | ⟨even, -⟩
      · exact absurd same less.ne
      · exact even
    · rcases fromLow with more | ⟨even, -⟩
      · exact absurd same more.ne'
      · exact even

theorem readsBack_of_onGrid? {tie : Tie} {e : Int} {digits : Nat} (found : b.onGrid? tie e = some digits) :
    b.readsBack ⟨digits, e⟩ := by
  simp only [onGrid?] at found
  split at found
  next below above => cases found; exact below
  next below above => cases found; exact above
  next => cases found
  next below above =>
    split at found <;> cases found
    · exact below
    · exact above
    · exact above
    · split
      · exact below
      · exact above

theorem value_strip (d : Digits) : d.strip.value = d.value := by
  fun_induction Digits.strip d with
  | case1 d more ih =>
    have split : ((d.digits / 10 : ℕ) : ℚ) * 10 = d.digits := by
      exact_mod_cast Nat.div_mul_cancel (Nat.dvd_of_mod_eq_zero more.2)
    rw [ih, Digits.value, Digits.value, zpow_add_one₀ (by norm_num), ← split]
    ring
  | case2 => rfl

theorem value_exactDigits (b : Binary) : b.exactDigits.value = b.mantissa * 2 ^ b.exponent := by
  unfold exactDigits
  split
  next whole =>
    rw [Digits.value, zpow_zero, mul_one, zpow_two, show (-b.exponent).toNat = 0 by omega]
    simp [pow2]
  next part =>
    have exponent : b.exponent = -((-b.exponent).toNat : ℤ) := by omega
    have fives : ((Nat.pow 5 (-b.exponent).toNat : ℕ) : ℚ) = 5 ^ (-b.exponent).toNat := Nat.cast_pow 5 _
    have ten : (10 : ℚ) = 5 * 2 := by norm_num
    simp only [Digits.value, Nat.cast_mul, fives]
    rw [exponent, zpow_neg, zpow_neg, ← exponent, zpow_natCast, zpow_natCast, ten, mul_pow]
    field_simp

theorem nearest_shortest (positive : 0 < b.mantissa) (tie : Tie) :
    b.Nearest ((b.shortest tie).value / 2 ^ b.exponent) := by
  simp only [shortest, if_neg positive.ne', value_strip]
  cases found : (List.range 17).findSome? fun n =>
      (b.onGrid? tie (b.scale - (n + 1 : ℕ))).map fun digits => Digits.mk digits (b.scale - (n + 1 : ℕ)) with
  | none =>
    rw [Option.getD_none, value_exactDigits, mul_div_cancel_right₀ _ (zpow_ne_zero _ two_ne_zero)]
    exact nearest_self b
  | some d =>
    obtain ⟨n, -, here⟩ := List.exists_of_findSome?_eq_some found
    obtain ⟨digits, onGrid, rfl⟩ := Option.map_eq_some_iff.mp here
    exact nearest_of_readsBack positive (readsBack_of_onGrid? onGrid)

end Binary

/-- A numeral that stands for the fewest digits of a float is read as the float. -/
theorem Numeral.toFloat_eq {x : Float} {b : Binary} (form : Binary.ofFloat? x = some b) {tie : Tie}
    {n : Numeral} (sign : n.negative = b.negative)
    (value : (n.digits * 10 ^ n.exponent : ℚ) = (b.shortest tie).value) : n.toFloat = x := by
  have canonical := Binary.canonical_of_ofFloat? form
  have tens : (10 : ℚ) ^ n.exponent ≠ 0 := zpow_ne_zero _ (by norm_num)
  refine Binary.ofFloat?_inj ?_ form
  rcases Nat.eq_zero_or_pos b.mantissa with zero | positive
  · have none : n.digits = 0 := by
      rw [Binary.shortest, if_pos zero, Digits.value, Nat.cast_zero, zero_mul] at value
      exact Nat.cast_eq_zero.mp ((mul_eq_zero.mp value).resolve_right tens)
    have least : b.exponent = -1074 := by
      by_contra other
      exact absurd (canonical.normal other) (by rw [zero]; decide)
    have same : b = ⟨n.negative, 0, -1074⟩ := by rw [sign, ← zero, ← least]
    rw [same, Numeral.toFloat, Numeral.magnitude, if_pos none]
    cases n.negative <;> decide
  · have nearest := Binary.nearest_shortest positive tie
    rw [← value] at nearest
    have some : 0 < n.digits := by
      refine Nat.pos_of_ne_zero fun none => ?_
      have more := nearest.pos positive
      rw [none, Nat.cast_zero, zero_mul, zero_div] at more
      exact more.false
    have exponent : (if n.exponent < 0 then -n.exponent.natAbs else n.exponent.natAbs : ℤ) = n.exponent := by
      split <;> omega
    have magnitude : n.magnitude.toModel.unpack = .finite .positive b.mantissa b.exponent positive := by
      rw [Numeral.magnitude, if_neg some.ne']
      refine Binary.unpack_ofScientific canonical positive some _ _ ?_
      simpa only [decide_eq_true_eq, exponent] using nearest
    have unpacked : n.toFloat.toModel.unpack = .finite b.sign b.mantissa b.exponent positive := by
      rw [Numeral.toFloat, Binary.sign, sign]
      cases b.negative with
      | false => exact magnitude
      | true =>
        rw [if_pos rfl, Binary.unpack_neg, magnitude]
        rfl
    exact Binary.ofFloat?_of_unpack unpacked

end BlockPlay.Decimal

import BlockPlay.Proofs.Decimal.Unpacked

/-!
Rounding to the nearest float. What arithmetic keeps of a number before it rounds is a mantissa and two
bits, which say where above the mantissa the number lies; that is enough to find the one form that the
number is nearest to.
-/
namespace BlockPlay.Decimal

open Float.Model (Format UnpackedFloat totalExponent)
open Float.Model.UnpackedFloat hiding pack unpack isFinite

/-- A number, in units of the last place of the mantissa. -/
def Holds : ExtendedMantissa → ℚ → Prop
  | ⟨m, false, false⟩, x => x = m
  | ⟨m, false, true⟩, x => m < x ∧ x < m + 1 / 2
  | ⟨m, true, false⟩, x => x = m + 1 / 2
  | ⟨m, true, true⟩, x => m + 1 / 2 < x ∧ x < m + 1

namespace Holds

variable {em : ExtendedMantissa} {x : ℚ}

theorem bounds (holds : Holds em x) : em.mantissa ≤ x ∧ x < em.mantissa + 1 := by
  obtain ⟨m, round, sticky⟩ := em
  cases round <;> cases sticky <;> simp only [Holds] at holds ⊢ <;> constructor <;> linarith

theorem shiftRightOne (holds : Holds em x) : Holds em.shiftRightOne (x / 2) := by
  obtain ⟨m, round, sticky⟩ := em
  have halves : (m : ℚ) = 2 * (m / 2 : ℕ) + (m % 2 : ℕ) := by exact_mod_cast (Nat.div_add_mod m 2).symm
  rcases Nat.mod_two_eq_zero_or_one m with even | odd
  · rw [even] at halves
    cases round <;> cases sticky <;>
      simp [Holds, ExtendedMantissa.shiftRightOne, even] at holds halves ⊢
    · linarith
    · constructor <;> linarith
    · constructor <;> linarith
    · constructor <;> linarith
  · rw [odd] at halves
    cases round <;> cases sticky <;>
      simp [Holds, ExtendedMantissa.shiftRightOne, odd] at holds halves ⊢
    · linarith
    · constructor <;> linarith
    · constructor <;> linarith
    · constructor <;> linarith

theorem shiftRight (holds : Holds em x) (n : Nat) : Holds (em >>> n) (x / 2 ^ n) := by
  induction n with
  | zero =>
    rw [pow_zero, div_one]
    exact holds
  | succ n ih =>
    have shifted := ih.shiftRightOne
    rw [div_div, ← pow_succ] at shifted
    exact shifted

/-- The mantissa is rounded to the whole number nearby, a half to the even one. -/
theorem roundedMantissa_eq (holds : Holds em x) {n : Nat} (above : x ≤ n + 1 / 2) (below : n ≤ x + 1 / 2)
    (tie : x = n + 1 / 2 ∨ n = x + 1 / 2 → n % 2 = 0) : em.roundedMantissa = n := by
  obtain ⟨m, round, sticky⟩ := em
  cases round <;> cases sticky <;> simp only [Holds] at holds <;>
    simp only [ExtendedMantissa.roundedMantissa, ExtendedMantissa.accuracy, Accuracy.roundToNearestEven]
  · have low : (m : ℚ) < n + 1 := by linarith
    have high : (n : ℚ) < m + 1 := by linarith
    norm_cast at low high
    omega
  · have low : (m : ℚ) < n + 1 := by linarith
    have high : (n : ℚ) < m + 1 := by linarith
    norm_cast at low high
    omega
  · have low : (m : ℚ) ≤ n := by linarith
    have high : (n : ℚ) ≤ m + 1 := by linarith
    norm_cast at low high
    rcases Nat.le_succ_iff_eq_or_le.mp high with rfl | same
    · have even : (m + 1) % 2 = 0 := tie (.inr (by rw [holds]; push_cast; ring))
      omega
    · obtain rfl : n = m := Nat.le_antisymm same low
      have even : n % 2 = 0 := tie (.inl holds)
      omega
  · have low : (m : ℚ) < n := by linarith
    have high : (n : ℚ) < m + 2 := by linarith
    norm_cast at low high
    omega

end Holds

theorem targetExponent_eq (total : ℤ) : Format.binary64.targetExponent total = max (total - 53) (-1074) := rfl

theorem zpow_sub_two (x : ℚ) (e : ℤ) (n : Nat) : x / 2 ^ e / 2 ^ n = x / 2 ^ (e + n) := by
  rw [div_div, ← zpow_natCast, ← zpow_add₀ two_ne_zero]

/-- A shift goes all the way to the exponent that is asked for, or has nowhere to go. -/
theorem shift_stays {m : Nat} {e : ℤ} (small : m < pow2 53) (least : -1074 ≤ e) :
    shiftToTargetExponent Format.binary64 m e .exact = (⟨m, false, false⟩, e) := by
  have bits : m.log2 < 53 := by
    by_cases zero : m = 0
    · simp [zero]
    · exact (Nat.log2_lt zero).mpr small
  have nowhere : (Format.binary64.targetExponent (totalExponent m e) - e).toNat = 0 := by
    rw [targetExponent_eq, totalExponent]
    omega
  simp only [shiftToTargetExponent, shiftToExponent, nowhere, Nat.cast_zero, add_zero]
  rfl

theorem shift_carry {e : ℤ} (least : -1074 ≤ e) :
    shiftToTargetExponent Format.binary64 (pow2 53) e .exact = (⟨pow2 52, false, false⟩, e + 1) := by
  have bits : (pow2 53).log2 = 53 := by decide
  have one : (Format.binary64.targetExponent (totalExponent (pow2 53) e) - e).toNat = 1 := by
    rw [targetExponent_eq, totalExponent, bits]
    omega
  simp only [shiftToTargetExponent, shiftToExponent, one, Nat.cast_one]
  rfl

namespace Binary

/-- How far below a form, in units of its last place, numbers are still rounded to it. -/
def reach (b : Binary) : ℚ := if b.mantissa = pow2 52 ∧ -1074 < b.exponent then 1 / 4 else 1 / 2

/-- A number, in units of the last place, that is rounded to a form. -/
structure Nearest (b : Binary) (y : ℚ) : Prop where
  above : y ≤ b.mantissa + 1 / 2
  below : b.mantissa - b.reach ≤ y
  tie : y = b.mantissa + 1 / 2 ∨ y = b.mantissa - b.reach → b.mantissa % 2 = 0

theorem reach_le (b : Binary) : b.reach ≤ 1 / 2 := by
  unfold reach
  split <;> norm_num

theorem Nearest.pos {b : Binary} {y : ℚ} (nearest : b.Nearest y) (positive : 0 < b.mantissa) : 0 < y := by
  have below := nearest.below
  have reach := b.reach_le
  have one : (1 : ℚ) ≤ b.mantissa := Nat.one_le_cast.mpr positive
  linarith

variable {b : Binary} {x : ℚ}

section Powers

variable {total e k : ℤ}

theorem lt_of_power_le (less : x < 2 ^ total) (power : 2 ^ k ≤ x / 2 ^ e) : k + e < total := by
  rw [le_div_iff₀ (zpow_pos two_pos e), ← zpow_add₀ two_ne_zero] at power
  exact (zpow_lt_zpow_iff_right₀ one_lt_two).mp (power.trans_lt less)

theorem le_of_lt_power (more : 2 ^ (total - 1) ≤ x) (power : x / 2 ^ e < 2 ^ k) : total ≤ k + e := by
  rw [div_lt_iff₀ (zpow_pos two_pos e), ← zpow_add₀ two_ne_zero] at power
  exact Int.le_of_sub_one_lt ((zpow_lt_zpow_iff_right₀ one_lt_two).mp (more.trans_lt power))

end Powers

/-- The last place of a number that is rounded to a form is that of the form, or half of it just below a
power of two. -/
theorem Nearest.exponent (canonical : b.Canonical) (nearest : b.Nearest (x / 2 ^ b.exponent)) {total : ℤ}
    (less : x < 2 ^ total) (enough : 2 ^ (total - 1) ≤ x ∨ total ≤ -1021) :
    max (total - 53) (-1074) = b.exponent ∨
      max (total - 53) (-1074) = b.exponent - 1 ∧ -1074 < b.exponent ∧ b.mantissa = pow2 52 ∧
        x / 2 ^ b.exponent < pow2 52 := by
  obtain ⟨small, least, -, normal⟩ := canonical
  obtain ⟨above, below, -⟩ := nearest
  have power (k : ℕ) : (pow2 k : ℚ) = 2 ^ (k : ℤ) := (cast_pow2 k).trans (zpow_natCast 2 k).symm
  have size : (b.mantissa : ℚ) + 1 ≤ pow2 53 := by exact_mod_cast small
  have top : total - 53 ≤ b.exponent := by
    rcases enough with more | tiny
    · have bound : x / 2 ^ b.exponent < pow2 53 := by linarith
      have := le_of_lt_power more (bound.trans_eq (power 53))
      omega
    · omega
  by_cases subnormal : b.exponent = -1074
  · left
    omega
  have large : (pow2 52 : ℚ) ≤ b.mantissa := by exact_mod_cast normal subnormal
  by_cases full : pow2 52 ≤ x / 2 ^ b.exponent
  · left
    have := lt_of_power_le less ((power 52).symm.trans_le full)
    omega
  -- Less than the least mantissa is rounded to it only from half a place below.
  right
  have short : x / 2 ^ b.exponent < pow2 52 := lt_of_not_ge full
  have close := reach_le b
  have bottom : b.mantissa = pow2 52 := by
    have most : (b.mantissa : ℚ) < pow2 52 + 1 := by linarith
    norm_cast at most
    exact Nat.le_antisymm (Nat.lt_succ_iff.mp most) (normal subnormal)
  have half : (pow2 51 : ℚ) ≤ pow2 52 - 1 / 2 := by norm_num [cast_pow2]
  have low := lt_of_power_le less ((power 51).symm.trans_le (show _ ≤ x / 2 ^ b.exponent by linarith))
  have place : total - 53 = b.exponent - 1 := by
    rcases enough with more | tiny
    · have := le_of_lt_power more (short.trans_eq (power 52))
      omega
    · omega
  exact ⟨by omega, by omega, bottom, short⟩

theorem totalExponent_bounds {m : Nat} {e : ℤ} {a : Accuracy}
    (holds : Holds (ExtendedMantissa.ofMantissaAndAccuracy m a) (x / 2 ^ e))
    (enough : e ≤ Format.binary64.targetExponent (totalExponent m e)) :
    x < 2 ^ totalExponent m e ∧
      (2 ^ (totalExponent m e - 1) ≤ x ∨ totalExponent m e ≤ -1021) := by
  have unit : (0 : ℚ) < 2 ^ e := zpow_pos two_pos _
  have whole : (ExtendedMantissa.ofMantissaAndAccuracy m a).mantissa = m := by
    rcases a with _ | (_ | _ | _) <;> rfl
  obtain ⟨low, high⟩ := holds.bounds
  rw [whole] at low high
  have total : totalExponent m e = ((m.log2 + 1 : ℕ) : ℤ) + e := by
    simp [totalExponent]
  have before : totalExponent m e - 1 = (m.log2 : ℤ) + e := by
    simp only [totalExponent]
    omega
  constructor
  · have digits : (m : ℚ) + 1 ≤ 2 ^ (m.log2 + 1) := by exact_mod_cast Nat.lt_log2_self
    rw [total, zpow_add₀ two_ne_zero, zpow_natCast, ← div_lt_iff₀ unit]
    linarith
  · by_cases zero : m = 0
    · right
      rw [targetExponent_eq, total, zero] at enough
      rw [total, zero]
      simp only [Nat.log2_zero] at enough ⊢
      omega
    · left
      have digits : (2 : ℚ) ^ m.log2 ≤ m := by exact_mod_cast Nat.log2_self_le zero
      rw [before, zpow_add₀ two_ne_zero, zpow_natCast, ← le_div_iff₀ unit]
      linarith

/-- Whatever stands for a number that is rounded to a form is rounded to it. -/
theorem roundWithAccuracy_eq (canonical : b.Canonical) (positive : 0 < b.mantissa)
    (nearest : b.Nearest (x / 2 ^ b.exponent)) (s : Sign) {m : Nat} {e : ℤ} {a : Accuracy}
    (holds : Holds (ExtendedMantissa.ofMantissaAndAccuracy m a) (x / 2 ^ e))
    (enough : e ≤ Format.binary64.targetExponent (totalExponent m e)) :
    roundWithAccuracy Format.binary64 s m e a = .finite s b.mantissa b.exponent positive := by
  obtain ⟨less, more⟩ := totalExponent_bounds holds enough
  have place := nearest.exponent canonical less more
  rw [← targetExponent_eq] at place
  obtain ⟨em, first, shifted⟩ : ∃ em, shiftToTargetExponent Format.binary64 m e a =
      (em, Format.binary64.targetExponent (totalExponent m e)) ∧
      Holds em (x / 2 ^ Format.binary64.targetExponent (totalExponent m e)) := by
    have amount : e + ((Format.binary64.targetExponent (totalExponent m e) - e).toNat : ℤ) =
        Format.binary64.targetExponent (totalExponent m e) := by omega
    have goes := holds.shiftRight (Format.binary64.targetExponent (totalExponent m e) - e).toNat
    rw [zpow_sub_two, amount] at goes
    refine ⟨_, ?_, goes⟩
    simp only [shiftToTargetExponent, shiftToExponent, amount]
  obtain ⟨above, below, tie⟩ := nearest
  have close := reach_le b
  rw [roundWithAccuracy, first]
  rcases place with same | ⟨half, normal, least, short⟩
  · rw [same] at shifted ⊢
    have rounded : em.roundedMantissa = b.mantissa := by
      refine shifted.roundedMantissa_eq above (by linarith) fun ends => tie (ends.imp_right fun low => ?_)
      linarith
    simp only [rounded, shift_stays canonical.small canonical.least, positive.ne', dite_false]
  · rw [half] at shifted ⊢
    have double : x / 2 ^ (b.exponent - 1) = 2 * (x / 2 ^ b.exponent) := by
      rw [zpow_sub₀ two_ne_zero, zpow_one, div_div_eq_mul_div, mul_comm, mul_div_assoc]
    have quarter : b.reach = 1 / 4 := if_pos ⟨least, normal⟩
    have twice : (pow2 53 : ℚ) = 2 * pow2 52 := by norm_num [cast_pow2]
    have rounded : em.roundedMantissa = pow2 53 := by
      rw [least, quarter] at below
      refine shifted.roundedMantissa_eq ?_ ?_ fun _ => by decide
      · rw [double, twice]
        linarith
      · rw [double, twice]
        linarith
    simp only [rounded, shift_carry (show -1074 ≤ b.exponent - 1 by omega), sub_add_cancel, ← least,
      positive.ne', dite_false]

section Operations

variable {m n : Nat} {e f : ℤ} (one : 0 < m) (other : 0 < n)

theorem mul_eq (canonical : b.Canonical) (positive : 0 < b.mantissa)
    (nearest : b.Nearest (m * 2 ^ e * (n * 2 ^ f) / 2 ^ b.exponent)) (large : pow2 52 ≤ m * n) :
    UnpackedFloat.mul Format.binary64 (.finite .positive m e one) (.finite .positive n f other) =
      .finite .positive b.mantissa b.exponent positive := by
  have bits : 52 ≤ (m * n).log2 := (Nat.le_log2 (Nat.mul_pos one other).ne').mpr large
  have exact : (m * 2 ^ e * (n * 2 ^ f) / 2 ^ (e + f) : ℚ) = (m * n : ℕ) := by
    have units : (2 ^ e * 2 ^ f : ℚ) ≠ 0 :=
      mul_ne_zero (zpow_ne_zero e two_ne_zero) (zpow_ne_zero f two_ne_zero)
    rw [zpow_add₀ two_ne_zero, mul_mul_mul_comm, mul_div_assoc, div_self units, mul_one, Nat.cast_mul]
  refine roundWithAccuracy_eq canonical positive nearest .positive (a := .exact) exact ?_
  rw [targetExponent_eq, totalExponent]
  omega

theorem holds_fraction (num : Nat) {den : Nat} (positive : 0 < den) :
    Holds (ExtendedMantissa.ofMantissaAndAccuracy (num / den) (accuracyOfFraction (num % den) den))
      (num / den) := by
  have unit : (0 : ℚ) < den := Nat.cast_pos.mpr positive
  have parts : (num : ℚ) / den = (num / den : ℕ) + (num % den : ℕ) / den := by
    rw [div_eq_iff unit.ne', add_mul, div_mul_cancel₀ _ unit.ne', mul_comm]
    exact_mod_cast (Nat.div_add_mod num den).symm
  have less : ((num % den : ℕ) : ℚ) / den < 1 := by
    rw [div_lt_iff₀ unit, one_mul]
    exact_mod_cast Nat.mod_lt num positive
  rw [parts]
  unfold accuracyOfFraction
  split
  next none => simp [ExtendedMantissa.ofMantissaAndAccuracy, Holds, none]
  next some =>
    have more : (0 : ℚ) < (num % den : ℕ) / den := div_pos (Nat.cast_pos.mpr (Nat.pos_of_ne_zero some)) unit
    cases half : compare (2 * (num % den)) den with
    | lt =>
      have below : ((num % den : ℕ) : ℚ) / den < 1 / 2 := by
        rw [div_lt_div_iff₀ unit two_pos, one_mul, mul_comm]
        exact_mod_cast Nat.compare_eq_lt.mp half
      exact ⟨by linarith, by linarith⟩
    | eq =>
      have middle : ((num % den : ℕ) : ℚ) / den = 1 / 2 := by
        rw [div_eq_div_iff unit.ne' two_ne_zero, one_mul, mul_comm]
        exact_mod_cast Nat.compare_eq_eq.mp half
      exact congrArg (_ + ·) middle
    | gt =>
      have above : 1 / 2 < ((num % den : ℕ) : ℚ) / den := by
        rw [div_lt_div_iff₀ two_pos unit, one_mul, mul_comm _ (2 : ℚ)]
        exact_mod_cast Nat.compare_eq_gt.mp half
      exact ⟨by linarith, by linarith⟩

theorem div_eq (canonical : b.Canonical) (positive : 0 < b.mantissa)
    (nearest : b.Nearest (m * 2 ^ e / (n * 2 ^ f) / 2 ^ b.exponent)) :
    UnpackedFloat.div Format.binary64 (.finite .positive m e one) (.finite .positive n f other) =
      .finite .positive b.mantissa b.exponent positive := by
  set target := min (e - f) (Format.binary64.targetExponent (totalExponent m e - totalExponent n f))
    with lowest
  set shift := (e - f - target).toNat with amount
  have total : target + shift = e - f := by omega
  have exact : (m * 2 ^ e / (n * 2 ^ f) / 2 ^ target : ℚ) = (m <<< shift : ℕ) / n := by
    have split : e = target + shift + f := by omega
    have unit (k : ℤ) : (2 : ℚ) ^ k ≠ 0 := zpow_ne_zero k two_ne_zero
    have some : (n : ℚ) ≠ 0 := Nat.cast_ne_zero.mpr other.ne'
    rw [div_div, div_eq_div_iff (mul_ne_zero (mul_ne_zero some (unit f)) (unit target)) some, split,
      zpow_add₀ two_ne_zero, zpow_add₀ two_ne_zero, zpow_natCast, Nat.shiftLeft_eq]
    push_cast
    ring
  refine roundWithAccuracy_eq canonical positive nearest .positive
    (exact ▸ holds_fraction (m <<< shift) other) ?_
  change target ≤ Format.binary64.targetExponent (totalExponent ((m <<< shift) / n) target)
  by_cases tiny : target ≤ -1074
  · rw [targetExponent_eq]
    omega
  · have bits : 52 ≤ ((m <<< shift) / n).log2 := by
      have enough : 52 + (n.log2 + 1) ≤ m.log2 + shift := by
        simp only [targetExponent_eq, totalExponent] at lowest
        omega
      have large : 2 ^ 52 ≤ (m <<< shift) / n := by
        rw [Nat.le_div_iff_mul_le other, Nat.shiftLeft_eq]
        calc 2 ^ 52 * n ≤ 2 ^ 52 * 2 ^ (n.log2 + 1) := Nat.mul_le_mul_left _ Nat.lt_log2_self.le
          _ = 2 ^ (52 + (n.log2 + 1)) := (pow_add ..).symm
          _ ≤ 2 ^ (m.log2 + shift) := Nat.pow_le_pow_right two_pos enough
          _ = 2 ^ m.log2 * 2 ^ shift := pow_add ..
          _ ≤ m * 2 ^ shift := Nat.mul_le_mul_right _ (Nat.log2_self_le one.ne')
      exact (Nat.le_log2 (Nat.two_pow_pos 52 |>.trans_le large).ne').mpr large
    rw [targetExponent_eq, totalExponent]
    omega

end Operations

end Binary

end BlockPlay.Decimal

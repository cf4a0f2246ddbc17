import BlockPlay.Proofs.Decimal.Rounding

/-!
Decimals read as floats. A decimal is read as the float it is nearest to, by way of the powers of ten that
are floats themselves or by way of exact products and quotients; whole numbers of at most 53 bits are read
as they are.
-/
namespace BlockPlay.Decimal

namespace Binary

open Float.Model (Format UnpackedFloat totalExponent)
open Float.Model.UnpackedFloat hiding pack unpack isFinite

/-- The form of a whole number of at most 53 bits. -/
def ofWhole (n : Nat) : Binary := ⟨false, n * pow2 (52 - n.log2), (n.log2 : ℤ) - 52⟩

theorem canonical_ofWhole {n : Nat} (some : 0 < n) (small : n < pow2 53) : (ofWhole n).Canonical := by
  have bits : n.log2 < 53 := (Nat.log2_lt some.ne').mpr small
  have split : n.log2 + (52 - n.log2) = 52 := by omega
  have large : pow2 52 ≤ n * pow2 (52 - n.log2) := by
    calc pow2 52 = 2 ^ n.log2 * 2 ^ (52 - n.log2) := by rw [← pow_add, split]; rfl
      _ ≤ n * 2 ^ (52 - n.log2) := Nat.mul_le_mul_right _ (Nat.log2_self_le some.ne')
  have less : n * pow2 (52 - n.log2) < pow2 53 := by
    calc n * 2 ^ (52 - n.log2) < 2 ^ (n.log2 + 1) * 2 ^ (52 - n.log2) :=
          Nat.mul_lt_mul_of_pos_right Nat.lt_log2_self (pow2_pos _)
      _ = pow2 53 := by rw [← pow_add, Nat.add_right_comm, split]; rfl
  refine ⟨less, ?_, ?_, fun _ => large⟩ <;> simp only [ofWhole] <;> omega

theorem value_ofWhole {n : Nat} (small : n < pow2 53) : (ofWhole n).value = n := by
  have bits : n.log2 < 53 := by
    by_cases zero : n = 0
    · simp [zero]
    · exact (Nat.log2_lt zero).mpr small
  have exponent : (n.log2 : ℤ) - 52 = -((52 - n.log2 : ℕ) : ℤ) := by omega
  simp only [value, ofWhole, signed, Bool.false_eq_true, if_false, exponent, zpow_neg, zpow_natCast]
  rw [← div_eq_mul_inv, ← cast_pow2]
  push_cast
  exact mul_div_cancel_right₀ _ (Nat.cast_ne_zero.mpr (pow2_pos _).ne')

/-- A form is the nearest to the number it stands for. -/
theorem nearest_self (b : Binary) : b.Nearest b.mantissa := by
  have positive : 0 < b.reach := by
    unfold reach
    split <;> norm_num
  refine ⟨by linarith, by linarith, ?_⟩
  rintro (same | same) <;> linarith

theorem roundWithAccuracy_stays {m : Nat} {e : ℤ} (small : m < pow2 53) (least : -1074 ≤ e)
    (positive : 0 < m) (s : Sign) :
    roundWithAccuracy Format.binary64 s m e .exact = .finite s m e positive := by
  have rounded : (ExtendedMantissa.mk m false false).roundedMantissa = m := rfl
  simp only [roundWithAccuracy, shift_stays small least, rounded, positive.ne', dite_false]

theorem unpack_ofUInt64 {n : Nat} (some : 0 < n) (small : n < pow2 53) : ∃ positive,
    (Float.Model.ofUInt64 n.toUInt64).unpack =
      .finite .positive (ofWhole n).mantissa (ofWhole n).exponent positive := by
  have canonical := canonical_ofWhole some small
  have positive : 0 < (ofWhole n).mantissa := Nat.mul_pos some (pow2_pos _)
  have fits : n.toUInt64.toNat = n := by
    have bound : pow2 53 < 2 ^ 64 := by decide
    exact UInt64.toNat_ofNat_of_lt' (small.trans bound)
  have bits : n.log2 < 53 := (Nat.log2_lt some.ne').mpr small
  have target : Format.binary64.targetExponent (totalExponent n 0) = (ofWhole n).exponent := by
    rw [targetExponent_eq, totalExponent]
    change _ = (n.log2 : ℤ) - 52
    omega
  have moved : (0 - (ofWhole n).exponent).toNat = 52 - n.log2 := by
    simp only [ofWhole]
    omega
  have rounds : UnpackedFloat.ofUInt64 Format.binary64 n.toUInt64 =
      .finite .positive (ofWhole n).mantissa (ofWhole n).exponent positive := by
    have sign : compare (n : ℤ) 0 = .gt := Int.compare_eq_gt.mpr (by omega)
    have shifted : n <<< (52 - n.log2) = (ofWhole n).mantissa := Nat.shiftLeft_eq ..
    have exponent : 0 - ((52 - n.log2 : ℕ) : ℤ) = (ofWhole n).exponent := by
      change _ = (n.log2 : ℤ) - 52
      omega
    simp only [UnpackedFloat.ofUInt64, UnpackedFloat.ofNat, UnpackedFloat.ofInt, fits,
      UnpackedFloat.normalize, sign, UnpackedFloat.round, target, decreaseExponent, moved, Int.toNat_natCast, shifted, exponent]
    exact roundWithAccuracy_stays canonical.small canonical.least positive .positive
  refine ⟨positive, ?_⟩
  rw [Float.Model.ofUInt64, rounds]
  exact unpack_pack canonical .positive positive

def sign (b : Binary) : Sign := if b.negative then .negative else .positive

theorem unpack_of_ofFloat? {x : Float} {b : Binary} (form : ofFloat? x = some b) (positive : 0 < b.mantissa) :
    x.toModel.unpack = .finite b.sign b.mantissa b.exponent positive := by
  rw [ofFloat?_eq] at form
  cases unpacked : x.toModel.unpack with
  | infinity s => simp [unpacked, ofUnpacked?] at form
  | notANumber => simp [unpacked, ofUnpacked?] at form
  | zero s =>
    rw [unpacked] at form
    cases form
    cases positive
  | finite s m e some =>
    rw [unpacked] at form
    cases form
    cases s <;> rfl

theorem powers_exact : ∀ e : Fin Float.exactlyRepresentablePowersOfTen.size,
    (ofFloat? Float.exactlyRepresentablePowersOfTen[e]).any (fun b =>
      !b.negative && pow2 52 ≤ b.mantissa &&
        b.mantissa * pow2 b.exponent.toNat == 10 ^ e.val * pow2 (-b.exponent).toNat) := by
  decide

theorem unpack_powers {e : Nat} (known : e < Float.exactlyRepresentablePowersOfTen.size) :
    ∃ m f, ∃ positive : 0 < m,
      Float.exactlyRepresentablePowersOfTen[e].toModel.unpack = .finite .positive m f positive ∧
        (m * 2 ^ f : ℚ) = 10 ^ e ∧ pow2 52 ≤ m := by
  obtain ⟨b, form, facts⟩ := (Option.any_eq_true ..).mp (powers_exact ⟨e, known⟩)
  simp only [Bool.and_eq_true, Bool.not_eq_true', decide_eq_true_eq, beq_iff_eq] at facts
  obtain ⟨⟨sign, large⟩, exact⟩ := facts
  have positive : 0 < b.mantissa := (pow2_pos 52).trans_le large
  have unpacked := unpack_of_ofFloat? form positive
  have value : b.value = ((10 ^ e : ℕ) : ℤ) := by
    rw [value_eq_intCast_iff, signed, sign, if_neg Bool.false_ne_true]
    exact_mod_cast exact
  rw [Binary.value, signed, sign, if_neg Bool.false_ne_true] at value
  rw [Binary.sign, sign, if_neg Bool.false_ne_true] at unpacked
  exact ⟨b.mantissa, b.exponent, positive, unpacked, by exact_mod_cast value, large⟩

section Range

variable {b : Binary} {x : ℚ}

theorem Nearest.lt_top (canonical : b.Canonical) (nearest : b.Nearest (x / 2 ^ b.exponent)) :
    x < 2 ^ (1024 : ℤ) := by
  have unit : (0 : ℚ) < 2 ^ b.exponent := zpow_pos two_pos _
  have size : (b.mantissa : ℚ) + 1 ≤ 2 ^ (53 : ℤ) := by
    have less : b.mantissa + 1 ≤ pow2 53 := canonical.small
    exact_mod_cast less
  have above := nearest.above
  rw [div_le_iff₀ unit] at above
  calc x ≤ (b.mantissa + 1 / 2) * 2 ^ b.exponent := above
    _ < 2 ^ (53 : ℤ) * 2 ^ b.exponent := mul_lt_mul_of_pos_right (by linarith) unit
    _ = 2 ^ (53 + b.exponent) := (zpow_add₀ two_ne_zero ..).symm
    _ ≤ 2 ^ (1024 : ℤ) := zpow_le_zpow_right₀ one_le_two (by have := canonical.greatest; omega)

theorem Nearest.bottom_le (canonical : b.Canonical) (positive : 0 < b.mantissa)
    (nearest : b.Nearest (x / 2 ^ b.exponent)) : 2 ^ (-1075 : ℤ) ≤ x := by
  have unit : (0 : ℚ) < 2 ^ b.exponent := zpow_pos two_pos _
  have size : (1 : ℚ) ≤ b.mantissa := by exact_mod_cast positive
  have close := reach_le b
  have below := nearest.below
  rw [le_div_iff₀ unit] at below
  calc (2 : ℚ) ^ (-1075 : ℤ) ≤ 2 ^ (-1 + b.exponent) :=
        zpow_le_zpow_right₀ one_le_two (by have := canonical.least; omega)
    _ = 1 / 2 * 2 ^ b.exponent := by rw [zpow_add₀ two_ne_zero, zpow_neg_one, one_div]
    _ ≤ (b.mantissa - b.reach) * 2 ^ b.exponent := mul_le_mul_of_nonneg_right (by linarith) unit.le
    _ ≤ x := below

variable {digits : Nat} {e : ℤ}

theorem Nearest.exponent_le (canonical : b.Canonical) (some : 0 < digits)
    (nearest : b.Nearest (digits * 10 ^ e / 2 ^ b.exponent)) : e ≤ 1024 := by
  by_contra huge
  have size : (1 : ℚ) ≤ digits := by exact_mod_cast some
  have more : (2 : ℚ) ^ (1024 : ℤ) ≤ digits * 10 ^ e := by
    calc (2 : ℚ) ^ (1024 : ℤ) ≤ 2 ^ e := zpow_le_zpow_right₀ one_le_two (le_of_not_ge huge)
      _ ≤ 10 ^ e := zpow_le_zpow_left₀ (by omega) (by norm_num) (by norm_num)
      _ ≤ digits * 10 ^ e := le_mul_of_one_le_left (by positivity) size
  exact absurd more (not_le.mpr (nearest.lt_top canonical))

theorem Nearest.le_exponent (canonical : b.Canonical) (positive : 0 < b.mantissa)
    (nearest : b.Nearest (digits * 10 ^ e / 2 ^ b.exponent)) : -(1076 + (digits.log2 : ℤ)) ≤ e := by
  by_contra tiny
  obtain ⟨k, rfl⟩ : ∃ k : ℕ, e = -k := ⟨(-e).toNat, by omega⟩
  have bits : (digits : ℚ) < 2 ^ (digits.log2 + 1) := by exact_mod_cast Nat.lt_log2_self
  have power : (10 : ℚ) ^ (-(k : ℤ)) ≤ 2 ^ (-(k : ℤ)) := by
    rw [zpow_neg, zpow_neg, zpow_natCast, zpow_natCast]
    exact inv_anti₀ (by positivity) (pow_le_pow_left₀ (by norm_num) (by norm_num) k)
  have less : (digits * 10 ^ (-(k : ℤ)) : ℚ) < 2 ^ (-1075 : ℤ) := by
    calc (digits * 10 ^ (-(k : ℤ)) : ℚ) < 2 ^ (digits.log2 + 1) * 10 ^ (-(k : ℤ)) :=
          mul_lt_mul_of_pos_right bits (by positivity)
      _ ≤ 2 ^ (digits.log2 + 1) * 2 ^ (-(k : ℤ)) := mul_le_mul_of_nonneg_left power (by positivity)
      _ = 2 ^ ((digits.log2 + 1 : ℕ) + -(k : ℤ)) := by rw [zpow_add₀ two_ne_zero, zpow_natCast]
      _ ≤ 2 ^ (-1075 : ℤ) := zpow_le_zpow_right₀ one_le_two (by push_cast; omega)
  exact absurd (nearest.bottom_le canonical positive) (not_le.mpr less)

end Range

/-- The slow way, which goes through the powers of ten. -/
theorem unpack_ofScientific_model {b : Binary} (canonical : b.Canonical) (positive : 0 < b.mantissa)
    {digits : Nat} {e : ℤ} (some : 0 < digits) (nearest : b.Nearest (digits * 10 ^ e / 2 ^ b.exponent)) :
    UnpackedFloat.ofScientific Format.binary64 digits e =
      .finite .positive b.mantissa b.exponent positive := by
  have high : ¬ e > 2 ^ Format.binary64.exponentBits := by
    have := nearest.exponent_le canonical some
    change ¬ 2048 < e
    omega
  have low : ¬ e < -((2 ^ Format.binary64.exponentBits : ℤ) + digits.log2) := by
    have := nearest.le_exponent canonical positive
    change ¬ e < -(2048 + (digits.log2 : ℤ))
    omega
  rw [UnpackedFloat.ofScientific, dif_neg some.ne', if_neg high, if_neg low]
  split
  next whole =>
    have product :
        ((digits <<< 53 : ℕ) * 2 ^ (-(53 : ℤ)) * ((10 ^ e.toNat : ℕ) * 2 ^ (0 : ℤ)) : ℚ) =
          digits * 10 ^ e := by
      have power : (10 : ℚ) ^ e.toNat = 10 ^ e := by rw [← zpow_natCast, Int.toNat_of_nonneg whole]
      rw [Nat.shiftLeft_eq, zpow_zero, zpow_neg, mul_one]
      push_cast
      rw [power]
      congr 1
      exact mul_inv_cancel_right₀ (by norm_num) _
    have large : pow2 52 ≤ digits <<< 53 * 10 ^ e.toNat := by
      rw [Nat.shiftLeft_eq]
      calc pow2 52 ≤ 1 * 2 ^ 53 * 1 := by decide
        _ ≤ digits * 2 ^ 53 * 10 ^ e.toNat :=
          Nat.mul_le_mul (Nat.mul_le_mul_right _ some) (Nat.pow_pos (by decide))
    have bits : Format.binary64.mantissaBits = 53 := rfl
    simp only [bits]
    refine mul_eq _ _ canonical positive ?_ large
    rw [← product] at nearest
    exact nearest
  next part =>
    have quotient :
        (digits * 2 ^ (0 : ℤ) / ((10 ^ (-e).toNat : ℕ) * 2 ^ (0 : ℤ)) : ℚ) = digits * 10 ^ e := by
      have exponent : e = -((-e).toNat : ℤ) := by omega
      rw [zpow_zero, mul_one, mul_one, exponent, zpow_neg, zpow_natCast, ← exponent, div_eq_mul_inv]
      push_cast
      rfl
    refine div_eq _ _ canonical positive ?_
    rw [← quotient] at nearest
    exact nearest

/-- A decimal is read as the float that it is nearest to. -/
theorem unpack_ofScientific {b : Binary} (canonical : b.Canonical) (positive : 0 < b.mantissa)
    {digits : Nat} (some : 0 < digits) (negative : Bool) (e : Nat)
    (nearest : b.Nearest (digits * 10 ^ (if negative then -e else e : ℤ) / 2 ^ b.exponent)) :
    (Float.ofScientific digits negative e).toModel.unpack =
      .finite .positive b.mantissa b.exponent positive := by
  unfold Float.ofScientific
  split
  next fast =>
    obtain ⟨small, few⟩ := fast
    obtain ⟨one, whole⟩ := unpack_ofUInt64 some small
    have inside : e < Float.exactlyRepresentablePowersOfTen.size := Nat.lt_succ_of_le few
    obtain ⟨m, f, other, power, exact, large⟩ := unpack_powers inside
    have value : ((ofWhole digits).mantissa * 2 ^ (ofWhole digits).exponent : ℚ) = digits := by
      have same := value_ofWhole small
      rwa [value, signed, ofWhole, if_neg Bool.false_ne_true, Int.cast_natCast] at same
    cases negative with
    | true =>
      change (Float.Model.pack (UnpackedFloat.div Format.binary64 (Float.Model.ofUInt64 _).unpack
        Float.exactlyRepresentablePowersOfTen[e].toModel.unpack)).unpack = _
      rw [whole, power, div_eq one other canonical positive ?_, unpack_pack canonical]
      rw [value, exact, div_eq_mul_inv (digits : ℚ), ← zpow_natCast, ← zpow_neg]
      exact nearest
    | false =>
      change (Float.Model.pack (UnpackedFloat.mul Format.binary64 (Float.Model.ofUInt64 _).unpack
        Float.exactlyRepresentablePowersOfTen[e].toModel.unpack)).unpack = _
      have bits : pow2 52 ≤ (ofWhole digits).mantissa * m :=
        large.trans (Nat.le_mul_of_pos_left _ one)
      rw [whole, power, mul_eq one other canonical positive ?_ bits, unpack_pack canonical]
      rw [value, exact, ← zpow_natCast]
      exact nearest
  next slow =>
    have exponent : (if negative then Int.negOfNat e else Int.ofNat e) = (if negative then -e else e : ℤ) := by
      cases negative
      · rfl
      · exact Int.negOfNat_eq
    simp only [Float.Model.ofScientific, exponent]
    rw [unpack_ofScientific_model canonical positive some nearest, unpack_pack canonical]

theorem ofFloat?_of_unpack {x : Float} {b : Binary} {positive : 0 < b.mantissa}
    (unpacked : x.toModel.unpack = .finite b.sign b.mantissa b.exponent positive) : ofFloat? x = some b := by
  rw [ofFloat?_eq, unpacked]
  obtain ⟨negative, mantissa, exponent⟩ := b
  cases negative <;> rfl

theorem unpack_neg (x : Float) : (-x).toModel.unpack = x.toModel.unpack.neg := by
  change (Float.Model.pack x.toModel.unpack.neg).unpack = _
  cases unpacked : x.toModel.unpack with
  | infinity s => cases s <;> rfl
  | notANumber => rfl
  | zero s => cases s <;> rfl
  | finite s m e positive =>
    have form : ofFloat? x = some ⟨s == .negative, m, e⟩ := by rw [ofFloat?_eq, unpacked]; rfl
    exact unpack_pack (canonical_of_ofFloat? form) (-s) positive

theorem ofFloat?_neg (x : Float) :
    ofFloat? (-x) = (ofFloat? x).map fun b => { b with negative := !b.negative } := by
  rw [ofFloat?_eq, unpack_neg, ofFloat?_eq]
  cases x.toModel.unpack with
  | infinity s | notANumber => rfl
  | zero s | finite s m e positive => cases s <;> rfl

theorem ofFloat?_ofNat {n : Nat} (positive : 0 < n) (small : n < pow2 53) :
    ofFloat? (Float.ofNat n) = some (ofWhole n) := by
  have value : (n : ℚ) = (ofWhole n).mantissa * 2 ^ (ofWhole n).exponent := by
    rw [← value_ofWhole small, Binary.value, signed, ofWhole, if_neg Bool.false_ne_true, Int.cast_natCast]
  have some : 0 < (ofWhole n).mantissa := Nat.mul_pos positive (pow2_pos _)
  refine ofFloat?_of_unpack (unpack_ofScientific (canonical_ofWhole positive small) some positive false 0 ?_)
  rw [if_neg Bool.false_ne_true, Nat.cast_zero, zpow_zero, mul_one, value,
    mul_div_cancel_right₀ _ (zpow_ne_zero _ two_ne_zero)]
  exact nearest_self _

theorem value_negate (b : Binary) : ({ b with negative := !b.negative } : Binary).value = -b.value := by
  cases sign : b.negative <;> simp [value, signed, sign]

end Binary

theorem value?_ofNat {n : Nat} (small : n < pow2 53) : value? (Float.ofNat n) = some (n : ℚ) := by
  by_cases zero : n = 0
  · have form : Binary.ofFloat? (Float.ofNat 0) = some ⟨false, 0, -1074⟩ := by decide
    rw [zero, value?, form]
    simp [Binary.value, Binary.signed]
  · rw [value?, Binary.ofFloat?_ofNat (Nat.pos_of_ne_zero zero) small, Option.map_some,
      Binary.value_ofWhole small]

theorem value?_neg {x : Float} {q : ℚ} (value : value? x = some q) : value? (-x) = some (-q) := by
  obtain ⟨b, form, rfl⟩ := Option.map_eq_some_iff.mp value
  rw [value?, Binary.ofFloat?_neg, form]
  exact congrArg some b.value_negate

/-- A whole number of at most 53 bits is a float. -/
theorem value?_ofInt {n : ℤ} (small : n.natAbs < pow2 53) : value? (Float.ofInt n) = some (n : ℚ) := by
  cases n with
  | ofNat n => exact value?_ofNat small
  | negSucc n =>
    rw [Int.cast_negSucc]
    exact value?_neg (value?_ofNat small)

end BlockPlay.Decimal

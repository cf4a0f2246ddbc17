import BlockPlay.Proofs.Decimal.Value
import Mathlib

/-!
Exact forms beside the unpacked floats that arithmetic is defined on. Both hold the same parts, apart from
the infinities and NaN; the forms of floats are the canonical ones, and packing takes nothing away from
them.
-/
namespace BlockPlay.Decimal

open Float.Model (Format UnpackedFloat)
open Float.Model.UnpackedFloat hiding pack unpack isFinite

theorem unpack_zero : (0 : Float).toModel.unpack = .zero .positive := rfl

theorem lt_iff {x y : Float} : x < y ↔ UnpackedFloat.lt x.toModel.unpack y.toModel.unpack := by
  change decide _ = true ↔ _
  rw [decide_eq_true_iff]
  rfl

theorem le_iff {x y : Float} : x ≤ y ↔ UnpackedFloat.le x.toModel.unpack y.toModel.unpack := by
  change decide _ = true ↔ _
  rw [decide_eq_true_iff]
  rfl

theorem pos_of_not_le {x : Float} (finite : x.isFinite) (not : ¬ x ≤ 0) : 0 < x := by
  rw [le_iff, unpack_zero] at not
  rw [lt_iff, unpack_zero]
  change x.toModel.unpack.isFinite at finite
  cases unpacked : x.toModel.unpack with
  | infinity s => simp [unpacked, UnpackedFloat.isFinite] at finite
  | notANumber => simp [unpacked, UnpackedFloat.isFinite] at finite
  | zero s =>
    rw [unpacked] at not
    exact absurd rfl not
  | finite s m e positive =>
    rw [unpacked] at not
    cases s with
    | negative => exact absurd rfl not
    | positive => rfl

namespace Binary

/-- The forms of the finite floats: 53 bits, unless the exponent is the least one. -/
structure Canonical (b : Binary) : Prop where
  small : b.mantissa < pow2 53
  least : -1074 ≤ b.exponent
  greatest : b.exponent ≤ 971
  normal : b.exponent ≠ -1074 → pow2 52 ≤ b.mantissa

def ofUnpacked? : UnpackedFloat → Option Binary
  | .zero s => some ⟨s == .negative, 0, -1074⟩
  | .finite s m e _ => some ⟨s == .negative, m, e⟩
  | .infinity _ | .notANumber => none

section Bits

variable (bits : UInt64)

theorem toNat_unpackMantissa :
    (@unpackMantissa Format.binary64 bits.toBitVec).toNat = (bits &&& 0xFFFFFFFFFFFFF).toNat := by
  have low : (bits &&& 0xFFFFFFFFFFFFF).toNat = bits.toNat % 2 ^ 52 :=
    (UInt64.toNat_and ..).trans (Nat.and_two_pow_sub_one_eq_mod _ 52)
  rw [low]
  simp [unpackMantissa]

theorem toNat_unpackExponent :
    (@unpackExponent Format.binary64 bits.toBitVec).toNat = ((bits >>> 52) &&& 0x7FF).toNat := by
  have low : ((bits >>> 52) &&& 0x7FF).toNat = (bits >>> 52).toNat % 2 ^ 11 :=
    (UInt64.toNat_and ..).trans (Nat.and_two_pow_sub_one_eq_mod _ 11)
  rw [low, UInt64.toNat_shiftRight]
  simp [unpackExponent]

theorem unpackSign_eq :
    (Sign.ofBitVec (@unpackSign Format.binary64 bits.toBitVec) == .negative) =
      (bits >>> 63 != 0) := by
  have top : (@unpackSign Format.binary64 bits.toBitVec).toNat = (bits >>> 63).toNat := by
    have bound := bits.toNat_lt
    rw [UInt64.toNat_shiftRight]
    simp [unpackSign]
    omega
  have zero : @unpackSign Format.binary64 bits.toBitVec = 0#1 ↔ bits >>> 63 = 0 := by
    rw [← BitVec.toNat_inj, top, ← UInt64.toNat_inj]
    rfl
  unfold Sign.ofBitVec
  by_cases none : bits >>> 63 = 0
  · rw [if_pos (zero.mpr none), none]
    rfl
  · rw [if_neg (mt zero.mp none), bne_iff_ne.mpr none]
    rfl

end Bits

theorem toNat_implicit (fraction : BitVec 52) : (1#1 ++ fraction).toNat = pow2 52 + fraction.toNat := by
  rw [BitVec.toNat_append, ← Nat.shiftLeft_add_eq_or_of_lt fraction.isLt]
  rfl

theorem ofFloat?_eq (x : Float) : ofFloat? x = ofUnpacked? x.toModel.unpack := by
  have mantissa := toNat_unpackMantissa x.toBits
  have exponent := toNat_unpackExponent x.toBits
  have sign := unpackSign_eq x.toBits
  have full : @unpackExponent Format.binary64 x.toBits.toBitVec = -1#11 ↔
      ((x.toBits >>> 52) &&& 0x7FF).toNat = 0x7FF := by
    rw [← BitVec.toNat_inj, exponent]
    rfl
  have least : @unpackExponent Format.binary64 x.toBits.toBitVec = 0#11 ↔
      ((x.toBits >>> 52) &&& 0x7FF).toNat = 0 := by
    rw [← BitVec.toNat_inj, exponent]
    rfl
  have none : @unpackMantissa Format.binary64 x.toBits.toBitVec = 0#52 ↔
      (x.toBits &&& 0xFFFFFFFFFFFFF).toNat = 0 := by
    rw [← BitVec.toNat_inj, mantissa]
    rfl
  change _ = ofUnpacked? (UnpackedFloat.unpack Format.binary64 x.toBits.toBitVec)
  simp only [ofFloat?, UnpackedFloat.unpack, beq_iff_eq]
  by_cases infinite : ((x.toBits >>> 52) &&& 0x7FF).toNat = 0x7FF
  · rw [if_pos infinite, if_pos (full.mpr infinite)]
    split <;> rfl
  · rw [if_neg infinite, if_neg (mt full.mp infinite)]
    by_cases small : ((x.toBits >>> 52) &&& 0x7FF).toNat = 0
    · rw [if_pos small, if_pos (least.mpr small)]
      by_cases zero : (x.toBits &&& 0xFFFFFFFFFFFFF).toNat = 0
      · rw [dif_pos (none.mpr zero), zero]
        simp only [ofUnpacked?, sign]
      · rw [dif_neg (mt none.mp zero)]
        simp only [ofUnpacked?, sign, mantissa, exponent, small]
        rfl
    · rw [if_neg small, if_neg (mt least.mp small)]
      simp only [ofUnpacked?, sign, toNat_implicit, mantissa, exponent]
      rfl

theorem canonical_of_ofFloat? {x : Float} {b : Binary} (form : ofFloat? x = some b) : b.Canonical := by
  have fraction : (x.toBits &&& 0xFFFFFFFFFFFFF).toNat < pow2 52 := by
    rw [← toNat_unpackMantissa]
    exact BitVec.isLt _
  have biased : ((x.toBits >>> 52) &&& 0x7FF).toNat < 0x800 := by
    rw [← toNat_unpackExponent]
    exact BitVec.isLt _
  have double : pow2 53 = pow2 52 + pow2 52 := by decide
  simp only [ofFloat?, beq_iff_eq] at form
  split at form
  next => cases form
  next finite =>
    split at form
    next small =>
      cases form
      constructor
      all_goals dsimp only
      all_goals omega
    next large =>
      cases form
      constructor
      all_goals dsimp only
      all_goals omega

theorem isFinite_iff {x : Float} : x.isFinite ↔ ∃ b, ofFloat? x = some b := by
  rw [ofFloat?_eq]
  change x.toModel.unpack.isFinite ↔ _
  cases x.toModel.unpack <;> simp [UnpackedFloat.isFinite, ofUnpacked?]

section Packing

variable {m : Nat} {e : Int}

theorem pack_subnormal (s : Sign) (positive : 0 < m) (small : m < pow2 52) :
    UnpackedFloat.pack Format.binary64 (.finite s m (-1074) positive) =
      packComponents Format.binary64 s 0#11 (BitVec.ofNat 52 m) := by
  have short : m.log2 < 52 := (Nat.log2_lt positive.ne').mpr small
  have few : m.log2 + 1 ≠ Format.binary64.mantissaBits := by
    change m.log2 + 1 ≠ 53
    omega
  simp only [UnpackedFloat.pack, if_neg few]
  rfl

theorem pack_normal (s : Sign) (positive : 0 < m) (large : pow2 52 ≤ m) (small : m < pow2 53)
    (greatest : e ≤ 971) :
    UnpackedFloat.pack Format.binary64 (.finite s m e positive) =
      packComponents Format.binary64 s (BitVec.ofNat 11 (e + 1075).toNat) (BitVec.ofNat 52 m) := by
  have low : 52 ≤ m.log2 := (Nat.le_log2 positive.ne').mpr large
  have high : m.log2 < 53 := (Nat.log2_lt positive.ne').mpr small
  have all : m.log2 + 1 = Format.binary64.mantissaBits := by
    change m.log2 + 1 = 53
    omega
  have biased : (e + Format.binary64.exponentBias + Format.binary64.mantissaBitsWithoutImplicit).toNat =
      (e + 1075).toNat := by
    change (e + 1023 + 52).toNat = _
    omega
  have fits : ¬ 2 ^ Format.binary64.exponentBits ≤ (e + 1075).toNat + 1 := by
    change ¬ 2048 ≤ _
    omega
  simp only [UnpackedFloat.pack, biased, if_neg fits, if_pos all]

/-- Nothing of a canonical form is lost when it is packed. -/
theorem unpack_pack {b : Binary} (canonical : b.Canonical) (s : Sign) (positive : 0 < b.mantissa) :
    (Float.Model.pack (.finite s b.mantissa b.exponent positive)).unpack =
      .finite s b.mantissa b.exponent positive := by
  obtain ⟨small, least, greatest, normal⟩ := canonical
  change UnpackedFloat.unpack Format.binary64 (UnpackedFloat.pack Format.binary64 _) = _
  by_cases full : pow2 52 ≤ b.mantissa
  · have biased : (BitVec.ofNat 11 (b.exponent + 1075).toNat).toNat = (b.exponent + 1075).toNat :=
      Nat.mod_eq_of_lt (by omega)
    have finite : BitVec.ofNat 11 (b.exponent + 1075).toNat ≠ -1#11 := by
      intro same
      rw [same] at biased
      change 2047 = _ at biased
      omega
    have large : BitVec.ofNat 11 (b.exponent + 1075).toNat ≠ 0#11 := by
      intro same
      rw [same] at biased
      change 0 = _ at biased
      omega
    have mantissa : (1#1 ++ BitVec.ofNat 52 b.mantissa).toNat = b.mantissa := by
      have double : pow2 53 = pow2 52 + pow2 52 := by decide
      have low : b.mantissa % pow2 52 = b.mantissa - pow2 52 := by
        rw [Nat.mod_eq_sub_mod full, Nat.mod_eq_of_lt (by omega)]
      rw [toNat_implicit, BitVec.toNat_ofNat]
      change pow2 52 + b.mantissa % pow2 52 = _
      omega
    have exponent : ((b.exponent + 1075).toNat : Int) -
        (Format.binary64.exponentBias + Format.binary64.mantissaBitsWithoutImplicit) = b.exponent := by
      change _ - (1075 : Int) = _
      omega
    rw [pack_normal s positive full small greatest]
    simp only [UnpackedFloat.unpack, unpackExponent_packComponents, unpackMantissa_packComponents,
      unpackSign_packComponents, Sign.ofBitVec_toBitVec, if_neg finite, if_neg large, mantissa, biased,
      exponent]
  · have tiny : b.exponent = -1074 := by
      by_contra other
      exact full (normal other)
    have fraction : (BitVec.ofNat 52 b.mantissa).toNat = b.mantissa :=
      Nat.mod_eq_of_lt (Nat.lt_of_not_le full)
    have some : BitVec.ofNat 52 b.mantissa ≠ 0#52 := by
      intro same
      rw [same] at fraction
      exact positive.ne fraction
    have finite : 0#11 ≠ -1#11 := by decide
    simp only [tiny]
    rw [pack_subnormal s positive (Nat.lt_of_not_le full)]
    simp only [UnpackedFloat.unpack, unpackExponent_packComponents, unpackMantissa_packComponents,
      unpackSign_packComponents, Sign.ofBitVec_toBitVec, if_neg finite, if_true, dif_neg some, fraction]
    rfl

end Packing

theorem eq_of_negative_eq {s t : Sign} (same : (s == .negative) = (t == .negative)) : s = t := by
  cases s <;> cases t
  · rfl
  · cases same
  · cases same
  · rfl

theorem ofUnpacked?_inj {u v : UnpackedFloat} {b : Binary} (left : ofUnpacked? u = some b)
    (right : ofUnpacked? v = some b) : u = v := by
  cases u with
  | infinity s | notANumber => cases left
  | zero s =>
    cases left
    cases v with
    | infinity t | notANumber => cases right
    | zero t =>
      simp only [ofUnpacked?, Option.some.injEq, mk.injEq] at right
      rw [eq_of_negative_eq right.1]
    | finite t m e positive =>
      simp only [ofUnpacked?, Option.some.injEq, mk.injEq] at right
      exact absurd right.2.1 positive.ne'
  | finite s m e positive =>
    cases left
    cases v with
    | infinity t | notANumber => cases right
    | zero t =>
      simp only [ofUnpacked?, Option.some.injEq, mk.injEq] at right
      exact absurd right.2.1 positive.ne
    | finite t n f other =>
      simp only [ofUnpacked?, Option.some.injEq, mk.injEq] at right
      obtain ⟨sign, rfl, rfl⟩ := right
      rw [eq_of_negative_eq sign]

/-- No two floats have the same form. -/
theorem ofFloat?_inj {x y : Float} {b : Binary} (left : ofFloat? x = some b) (right : ofFloat? y = some b) :
    x = y := by
  rw [ofFloat?_eq] at left right
  exact Float.toBits_inj.mp (UInt64.toBitVec_inj.mp
    ((unpack_inj_of_valid x.toModel.valid y.toModel.valid).mp (ofUnpacked?_inj left right)))

end Binary

theorem isFinite_of_value? {x : Float} {q : ℚ} (value : value? x = some q) : x.isFinite := by
  obtain ⟨b, form, -⟩ := Option.map_eq_some_iff.mp value
  exact Binary.isFinite_iff.mpr ⟨b, form⟩

end BlockPlay.Decimal

/-!
Exact views of binary64 numbers. A finite number is a signed `mantissa * 2 ^ exponent`; whole parts,
rounding, remainders and division by a whole number are computed on that form in integers, and
`toFloat` packs a form of at most 53 bits again.
-/
namespace BlockPlay.Decimal

def pow2 (n : Nat) : Nat := Nat.pow 2 n

def pow10 (n : Nat) : Nat := Nat.pow 10 n

/-- A signed dyadic number. The sign is kept apart, so that zero keeps it. -/
structure Binary where
  negative : Bool
  mantissa : Nat
  exponent : Int
  deriving DecidableEq, Repr

namespace Binary

/-- NaN and the infinities have no exact form. -/
def ofFloat? (x : Float) : Option Binary :=
  let bits := x.toBits
  let biased := ((bits >>> 52) &&& 0x7FF).toNat
  let fraction := (bits &&& 0xFFFFFFFFFFFFF).toNat
  let negative := bits >>> 63 != 0
  if biased == 0x7FF then none
  else if biased == 0 then some ⟨negative, fraction, -1074⟩
  else some ⟨negative, pow2 52 + fraction, (biased : Int) - 1075⟩

/-- Exact when the mantissa has at most 53 bits and the value lies in the range of binary64. -/
def toFloat (b : Binary) : Float :=
  let sign : Nat := if b.negative then pow2 63 else 0
  let magnitude : Nat :=
    if b.mantissa == 0 then 0
    else
      let top := b.mantissa.log2
      let leading := b.exponent + top
      if leading < -1022 then b.mantissa <<< (b.exponent + 1074).toNat
      else
        let fraction := if top ≤ 52 then b.mantissa <<< (52 - top) else b.mantissa >>> (top - 52)
        (leading + 1023).toNat * pow2 52 + (fraction - pow2 52)
  Float.ofBits (UInt64.ofNat (sign + magnitude))

def signed (b : Binary) (n : Nat) : Int := if b.negative then -(n : Int) else n

def truncate (b : Binary) : Int :=
  b.signed (b.mantissa * pow2 b.exponent.toNat / pow2 (-b.exponent).toNat)

/-- The nearest whole number, a half going away from zero. -/
def round (b : Binary) : Int :=
  let den := pow2 (-b.exponent).toNat
  b.signed ((2 * (b.mantissa * pow2 b.exponent.toNat) + den) / (2 * den))

/-- The remainder by a whole number, with the sign of the number divided. -/
def remainder (b : Binary) (d : Nat) : Binary :=
  if 0 ≤ b.exponent then { b with mantissa := b.mantissa * pow2 b.exponent.toNat % d, exponent := 0 }
  else { b with mantissa := b.mantissa % (d * pow2 (-b.exponent).toNat) }

/-- A quotient rounded to a whole number, a half going to the even neighbour. -/
def nearestEven (num den : Nat) : Nat :=
  let q := num / den
  let r := num % den
  if 2 * r < den then q else if den < 2 * r then q + 1 else q + q % 2

def divide (b : Binary) (d : Nat) : Binary :=
  if b.mantissa == 0 then b
  else
    let guess : Int := (b.mantissa.log2 : Int) - d.log2 - 53
    let scaled (e : Int) : Nat × Nat :=
      (b.mantissa * pow2 (-e).toNat, d * pow2 e.toNat)
    let shift := if (scaled guess).1 < pow2 53 * (scaled guess).2 then guess else guess + 1
    { b with
      mantissa := nearestEven (scaled shift).1 (scaled shift).2
      exponent := b.exponent + shift }

/-- The distance to a whole number, in units of `2 ^ exponent`, when the exponent is not positive. -/
def distance (b : Binary) (n : Int) : Nat :=
  (b.signed (b.mantissa * pow2 b.exponent.toNat) - n * pow2 (-b.exponent).toNat).natAbs

def fartherThan (b : Binary) (n : Int) (bound : Binary) : Bool :=
  bound.mantissa * pow2 bound.exponent.toNat * pow2 (-b.exponent).toNat
    < b.distance n * pow2 (-bound.exponent).toNat

end Binary

/-- A whole number read off a number by `whole`, held between two bounds; an infinity reads as the
bound on its side and NaN as zero. -/
def clampWhole (low high : Int) (whole : Binary → Int) (x : Float) : Int :=
  match Binary.ofFloat? x with
  | some b => max low (min high (whole b))
  | none => if x.isNaN then 0 else if 0 < x then high else low

/-- The nearest whole number as a number again, a half going away from zero. -/
def roundFloat (x : Float) : Float :=
  match Binary.ofFloat? x with
  | none => x
  | some b =>
    if 0 ≤ b.exponent then x
    else Binary.toFloat { b with mantissa := b.round.natAbs, exponent := 0 }

/-- The remainder by a whole number between zero and it: a negative remainder is moved up. -/
def remainderFloat (x : Float) (d : Nat) : Float :=
  match Binary.ofFloat? x with
  | none => 0 / 0
  | some b =>
    let r := (b.remainder d).toFloat
    if r < 0 then r + Float.ofNat d else r

end BlockPlay.Decimal

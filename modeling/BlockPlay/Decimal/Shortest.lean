import BlockPlay.Decimal.Binary

/-!
The fewest decimal digits that read back as a binary64 number. `readsBack` is the interval of reals
that round to the number; `shortest` takes the first decimal grid, from coarse to fine, on which a
neighbour of the number lies in that interval.
-/
namespace BlockPlay.Decimal

structure Digits where
  digits : Nat
  exponent : Int
  deriving DecidableEq, Repr

inductive Tie where
  | toEven
  | up
  deriving DecidableEq, Repr

def compareScaled (a : Nat) (i : Int) (n : Nat) (j : Int) : Ordering :=
  compare (a * pow10 i.toNat * pow2 (-j).toNat) (n * pow2 j.toNat * pow10 (-i).toNat)

/-- The gap below a power of two is half the gap above, the least normal one apart. -/
def Binary.narrowBelow (b : Binary) : Bool :=
  b.mantissa == pow2 52 && -1074 < b.exponent

/-- The decimals that round to the number; the ends belong to an even mantissa. -/
def Binary.readsBack (b : Binary) (d : Digits) : Bool :=
  let low := if b.narrowBelow then 4 * b.mantissa - 1 else 4 * b.mantissa - 2
  let high := 4 * b.mantissa + 2
  let closed := b.mantissa % 2 == 0
  let fromLow := compareScaled d.digits d.exponent low (b.exponent - 2)
  let toHigh := compareScaled d.digits d.exponent high (b.exponent - 2)
  (fromLow == .gt || (closed && fromLow == .eq)) && (toHigh == .lt || (closed && toHigh == .eq))

/-- The number of digits before the point of a positive magnitude; zero or negative below a tenth. -/
def Binary.scale (b : Binary) : Int :=
  let least (k : Int) : Bool := compareScaled 1 k b.mantissa b.exponent == .gt
  let guess := (b.exponent + b.mantissa.log2) * 30103 / 100000
  if least guess then guess else if least (guess + 1) then guess + 1 else guess + 2

/-- The grid point at or below the number, in units of `10 ^ e`. -/
def Binary.floorOn (b : Binary) (e : Int) : Nat :=
  (b.mantissa * pow2 b.exponent.toNat * pow10 (-e).toNat) / (pow2 (-b.exponent).toNat * pow10 e.toNat)

/-- The neighbour on the grid of `10 ^ e` that reads back, the nearer of two. -/
def Binary.onGrid? (b : Binary) (tie : Tie) (e : Int) : Option Nat :=
  let below := b.floorOn e
  match b.readsBack ⟨below, e⟩, b.readsBack ⟨below + 1, e⟩ with
  | true, false => some below
  | false, true => some (below + 1)
  | false, false => none
  | true, true =>
    match compareScaled (2 * below + 1) e (2 * b.mantissa) b.exponent, tie with
    | .gt, _ => some below
    | .lt, _ => some (below + 1)
    | .eq, .up => some (below + 1)
    | .eq, .toEven => some (if below % 2 == 0 then below else below + 1)

def Digits.strip (d : Digits) : Digits :=
  if h : d.digits ≠ 0 ∧ d.digits % 10 = 0 then strip ⟨d.digits / 10, d.exponent + 1⟩ else d
termination_by d.digits
decreasing_by omega

/-- The exact value, for the case that no short grid serves. -/
def Binary.exactDigits (b : Binary) : Digits :=
  if 0 ≤ b.exponent then ⟨b.mantissa * pow2 b.exponent.toNat, 0⟩
  else ⟨b.mantissa * Nat.pow 5 (-b.exponent).toNat, b.exponent⟩

def Binary.shortest (b : Binary) (tie : Tie) : Digits :=
  if b.mantissa = 0 then ⟨0, 0⟩
  else
    let k := b.scale
    let found := (List.range 17).findSome? fun n =>
      let e := k - (n + 1 : Nat)
      (b.onGrid? tie e).map fun digits => Digits.mk digits e
    (found.getD b.exactDigits).strip

end BlockPlay.Decimal

import BlockPlay.Decimal.Binary

/-!
Numerals: a run of digits with an optional point and an optional exponent. `Numeral.toFloat` is the
nearest binary64 number, and `readNumber?` reads the numerals that people type into a field.
-/
namespace BlockPlay.Decimal

/-- The number `digits * 10 ^ exponent` with a sign, before it is rounded. -/
structure Numeral where
  negative : Bool
  digits : Nat
  exponent : Int
  deriving DecidableEq, Repr

def readDigits (start : Nat) (ds : List Char) : Nat :=
  ds.foldl (fun n d => 10 * n + (d.toNat - '0'.toNat)) start

namespace Numeral

/-- The numeral with whole digits, digits behind the point and an exponent. -/
def ofParts (negative : Bool) (whole fraction : List Char) (exponent : Int) : Numeral where
  negative := negative
  digits := readDigits (readDigits 0 whole) fraction
  exponent := exponent - fraction.length

/-- The nearest number to the magnitude. -/
def magnitude (n : Numeral) : Float :=
  if n.digits = 0 then 0 else Float.ofScientific n.digits (n.exponent < 0) n.exponent.natAbs

/-- The nearest number; a magnitude beyond the largest one is infinite. -/
def toFloat (n : Numeral) : Float := if n.negative then -n.magnitude else n.magnitude

end Numeral

/-- A sign in front of a text: whether it is a minus, and what follows. -/
def splitSign : List Char → Bool × List Char
  | '-' :: rest => (true, rest)
  | '+' :: rest => (false, rest)
  | cs => (false, cs)

def splitFraction : List Char → List Char × List Char
  | '.' :: rest => (rest.takeWhile Char.isDigit, rest.dropWhile Char.isDigit)
  | cs => ([], cs)

/-- The exponent that makes up the rest of a numeral; no exponent is zero. -/
def readExponent? : List Char → Option Int
  | [] => some 0
  | e :: rest =>
    if e = 'e' || e = 'E' then
      let (negative, ds) := splitSign rest
      if ds ≠ [] && ds.all Char.isDigit then
        some (if negative then -(readDigits 0 ds : Int) else readDigits 0 ds)
      else none
    else none

/-- A numeral with a digit before or behind the point. -/
def Numeral.read? (text : List Char) : Option Numeral :=
  let (negative, unsigned) := splitSign text
  let whole := unsigned.takeWhile Char.isDigit
  let (fraction, rest) := splitFraction (unsigned.dropWhile Char.isDigit)
  if whole = [] && fraction = [] then none
  else (readExponent? rest).map (Numeral.ofParts negative whole fraction)

def readNumber? (text : List Char) : Option Float :=
  (Numeral.read? text).bind fun n => if n.toFloat.isFinite then some n.toFloat else none

end BlockPlay.Decimal

import BlockPlay.Decimal.Shortest

/-!
How numbers are written. A `Style` holds the decisions of a number format; three of them are in
use: `plain` for messages, `literal` for records shown field by field, and `json` for documents.
-/
namespace BlockPlay.Decimal

/-- A number format. A number whose leading digit stands for `10 ^ n` is written positionally for
`n` in the half-open range between the two bounds; a missing bound is no bound. -/
structure Style where
  positionalFrom : Option Int
  positionalBelow : Option Int
  pointZero : Bool
  exponentPlus : Bool
  tie : Tie

/-- Always positional, with no point behind a whole number. -/
def plain : Style where
  positionalFrom := none
  positionalBelow := none
  pointZero := false
  exponentPlus := false
  tie := .up

/-- Whole numbers end in `.0`; an exponent is written below 1e-4 and from 1e16. -/
def literal : Style where
  positionalFrom := some (-4)
  positionalBelow := some 16
  pointZero := true
  exponentPlus := false
  tie := .up

/-- Whole numbers end in `.0`; an exponent is written, with its sign, below 1e-5 and from 1e16. -/
def json : Style where
  positionalFrom := some (-5)
  positionalBelow := some 16
  pointZero := true
  exponentPlus := true
  tie := .toEven

def zeros (n : Nat) : String := String.ofList (List.replicate n '0')

def Digits.positional (d : Digits) (pointZero : Bool) : String :=
  let text := toString d.digits
  let tail := if pointZero then ".0" else ""
  if 0 ≤ d.exponent then text ++ zeros d.exponent.toNat ++ tail
  else
    let places := (-d.exponent).toNat
    if places < text.length then
      (text.take (text.length - places)).toString ++ "." ++ (text.drop (text.length - places)).toString
    else "0." ++ zeros (places - text.length) ++ text

def Digits.scientific (d : Digits) (leading : Int) (plus : Bool) : String :=
  let text := toString d.digits
  let point := if text.length ≤ 1 then "" else "."
  let sign := if plus && 0 ≤ leading then "+" else ""
  (text.take 1).toString ++ point ++ (text.drop 1).toString ++ "e" ++ sign ++ toString leading

namespace Style

def positional? (f : Style) (leading : Int) : Bool :=
  f.positionalFrom.all (· ≤ leading) && f.positionalBelow.all (leading < ·)

def magnitude (f : Style) (b : Binary) : String :=
  let d := b.shortest f.tie
  let leading := d.exponent + (toString d.digits).length - 1
  if d.digits = 0 || f.positional? leading then d.positional f.pointZero
  else d.scientific leading f.exponentPlus

def render (f : Style) (x : Float) : String :=
  match Binary.ofFloat? x with
  | some b => (if b.negative then "-" else "") ++ f.magnitude b
  | none => if x.isNaN then "NaN" else (if x < 0 then "-" else "") ++ "inf"

end Style

end BlockPlay.Decimal

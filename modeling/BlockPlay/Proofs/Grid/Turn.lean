import BlockPlay.Grid.Heading
import BlockPlay.Proofs.Decimal.Unpacked

/-!
Turns on a grid. A multiple of 90 degrees is divided exactly, whatever its size, so that it is a whole
number of quarter turns without recourse to the tolerance.
-/
namespace BlockPlay.Heading

open Decimal (value?)

/-- A multiple of 90 degrees. -/
def Square (degrees : Float) : Prop := ∃ k : ℤ, value? degrees = some (90 * (k : ℚ))

theorem quarterTurns?_of_value {degrees : Float} {k : ℤ} (whole : value? degrees = some (90 * (k : ℚ))) :
    quarterTurns? degrees = some k := by
  obtain ⟨b, form, multiple⟩ := Option.map_eq_some_iff.mp whole
  have quotient : (b.divide 90).value = k :=
    Decimal.Binary.value_divide (Decimal.Binary.canonical_of_ofFloat? form).small (by omega)
      (by rw [multiple, Nat.cast_ofNat])
  have exact := Decimal.Binary.not_fartherThan quotient tolerance
  rw [quarterTurns?, form, Option.bind_some]
  dsimp only
  rw [Decimal.Binary.round_of_value quotient, exact, if_neg Bool.false_ne_true]

theorem turn?_of_value (h : Heading) (d : Direction) {degrees : Float} {k : ℤ}
    (whole : value? degrees = some (90 * (k : ℚ))) :
    h.turn? d degrees = some (ofQuarters (h.quarters - d.sign * k)) := by
  rw [turn?, quarterTurns?_of_value whole, Option.map_some]

theorem not_square_of_turn? {h : Heading} {d : Direction} {degrees : Float}
    (none : h.turn? d degrees = none) : ¬ Square degrees := by
  rintro ⟨k, whole⟩
  rw [turn?_of_value h d whole] at none
  cases none

end BlockPlay.Heading

import BlockPlay.Proofs.Decimal.Scientific
import BlockPlay.Proofs.Grid.Turn

/-!
Quarter turns as an action of the whole numbers on the headings. As long as the angle is a whole number of 53 bits,
turns add up as the numbers do, a turn is undone by the same turn to the other side, and four of them make none.
-/
namespace BlockPlay

namespace Heading

/-- The heading so many quarter turns further, clockwise. -/
def rotate (h : Heading) (n : ℤ) : Heading := ofQuarters (h.quarters + n)

/-- So many quarter turns in degrees. -/
def degrees (k : ℤ) : Float := Float.ofInt (90 * k)

/-- The angle of so many quarter turns is exact as a float, and so is every whole angle below it. -/
def Exact (k : ℤ) : Prop := |90 * k| ≤ 2 ^ 53

variable {h : Heading} {d : Direction} {j k m n : ℤ}

theorem quarters_ofQuarters (n : ℤ) : (ofQuarters n).quarters = n % 4 := by
  have four : n % 4 = 0 ∨ n % 4 = 1 ∨ n % 4 = 2 ∨ n % 4 = 3 := by omega
  rcases four with rest | rest | rest | rest <;> simp [ofQuarters, rest, quarters]

theorem ofQuarters_eq_iff : ofQuarters m = ofQuarters n ↔ m % 4 = n % 4 := by
  constructor
  · intro same
    rw [← quarters_ofQuarters, same, quarters_ofQuarters]
  · intro same
    rw [ofQuarters, ofQuarters, same]

theorem rotate_zero (h : Heading) : h.rotate 0 = h := by
  rw [rotate, Int.add_zero, ofQuarters_quarters]

theorem rotate_rotate (h : Heading) (m n : ℤ) : (h.rotate m).rotate n = h.rotate (m + n) := by
  refine ofQuarters_eq_iff.mpr ?_
  rw [rotate, quarters_ofQuarters, Int.emod_add_emod, Int.add_assoc]

theorem rotate_eq_iff : h.rotate m = h.rotate n ↔ m % 4 = n % 4 := by
  rw [rotate, rotate, ofQuarters_eq_iff]
  omega

theorem delta_half (h : Heading) : (h.rotate 2).delta = (-h.delta.1, -h.delta.2) := by
  cases h <;> rfl

theorem turn?_eq_rotate (h : Heading) (d : Direction) {x : Float} (whole : Decimal.value? x = some (90 * (k : ℚ))) :
    h.turn? d x = some (h.rotate (-d.sign * k)) := by
  rw [turn?_of_value h d whole, rotate, Int.sub_eq_add_neg, Int.neg_mul]

/-- No power of two is a multiple of 90, so the bound itself is not reached. -/
theorem Exact.value? (exact : Exact k) : Decimal.value? (degrees k) = some (90 * (k : ℚ)) := by
  have few : (90 * k).natAbs < Decimal.pow2 53 := by
    obtain ⟨low, high⟩ := abs_le.mp exact
    have bound : Decimal.pow2 53 = 9007199254740992 := rfl
    omega
  rw [degrees, Decimal.value?_ofInt few]
  push_cast
  rfl

theorem Exact.value?_neg (exact : Exact k) : Decimal.value? (-degrees k) = some (90 * ((-k : ℤ) : ℚ)) := by
  rw [Decimal.value?_neg exact.value?]
  push_cast
  rw [mul_neg]

theorem Exact.neg (exact : Exact k) : Exact (-k) := by
  rwa [Exact, mul_neg, abs_neg]

theorem Exact.turn? (exact : Exact k) (h : Heading) (d : Direction) :
    h.turn? d (degrees k) = some (h.rotate (-d.sign * k)) := turn?_eq_rotate h d exact.value?

theorem turn_congr_iff (d : Direction) (first : Exact j) (second : Exact k) :
    h.turn? d (degrees j) = h.turn? d (degrees k) ↔ j % 4 = k % 4 := by
  rw [first.turn?, second.turn?, Option.some.injEq, rotate_eq_iff]
  cases d <;> simp only [Direction.sign] <;> omega

end Heading

theorem Position.step_half (p : Position) (h : Heading) : p.step (h.rotate 2) true = p.step h false := by
  simp only [step, h.delta_half, Int32.sub_eq_add_neg]
  rfl

namespace Heading

/-- Turns by whole numbers of quarters are never refused, and they act on the headings: two turns to one side make
one by the sum, a turn to the left takes back the same turn to the right and is the opposite turn to the right, and
only the remainder by four tells. After a half turn, a step ahead is a step back. -/
theorem quarter_turns_act {j k : ℤ} (first : |90 * j| ≤ 2 ^ 53) (second : |90 * k| ≤ 2 ^ 53)
    (both : |90 * (j + k)| ≤ 2 ^ 53) (h : Heading) (d : Direction) :
    (∃ h', h.turn? d (degrees k) = some h') ∧
    (h.turn? d (degrees j)).bind (·.turn? d (degrees k)) = h.turn? d (degrees (j + k)) ∧
    (h.turn? .right (degrees k)).bind (·.turn? .left (degrees k)) = some h ∧
    (h.turn? .left (degrees k) = h.turn? .right (degrees (-k)) ∧
      h.turn? .left (degrees k) = h.turn? .right (-degrees k)) ∧
    (∀ m : ℤ, |90 * m| ≤ 2 ^ 53 → (h.turn? d (degrees m) = h.turn? d (degrees k) ↔ m % 4 = k % 4)) ∧
    (k % 4 = 2 → ∀ h', h.turn? d (degrees k) = some h' → ∀ p : Position, p.step h' true = p.step h false) := by
  have exact : Exact k := second
  have opposite : -Direction.left.sign * k = -Direction.right.sign * -k := by
    simp only [Direction.sign]
    omega
  refine ⟨⟨_, exact.turn? h d⟩, ?_, ?_, ⟨?_, ?_⟩, fun m small => turn_congr_iff d small exact,
    fun half h' turned p => ?_⟩
  · rw [Exact.turn? first h d, Option.bind_some, exact.turn?, Exact.turn? both h d, rotate_rotate, mul_add]
  · rw [exact.turn? h .right, Option.bind_some, exact.turn?, rotate_rotate, ← Int.add_mul]
    exact congrArg some ((congrArg h.rotate (Int.zero_mul k)).trans h.rotate_zero)
  · rw [exact.turn?, exact.neg.turn?, opposite]
  · rw [exact.turn?, turn?_eq_rotate h .right exact.value?_neg, opposite]
  · rw [exact.turn?, Option.some.injEq] at turned
    have turns : h.rotate (-d.sign * k) = h.rotate 2 := by
      rw [rotate_eq_iff]
      cases d <;> simp only [Direction.sign] <;> omega
    rw [← turned, turns, p.step_half]

/-- The largest angle of all, and one to the other side. -/
theorem quarter_turns_act_huge :
    |90 * (100079991719344 : ℤ)| ≤ 2 ^ 53 ∧ |90 * (-100079991719343 : ℤ)| ≤ 2 ^ 53 ∧
      |90 * ((100079991719344 : ℤ) + -100079991719343)| ≤ 2 ^ 53 ∧
      (east.turn? .left (degrees 100079991719344)).bind (·.turn? .left (degrees (-100079991719343))) =
        east.turn? .left (degrees (100079991719344 + -100079991719343)) ∧
      (east.turn? .right (degrees (-100079991719343))).bind (·.turn? .left (degrees (-100079991719343))) = some east := by
  have first : |90 * (100079991719344 : ℤ)| ≤ 2 ^ 53 := by decide
  have second : |90 * (-100079991719343 : ℤ)| ≤ 2 ^ 53 := by decide
  have both : |90 * ((100079991719344 : ℤ) + -100079991719343)| ≤ 2 ^ 53 := by decide
  obtain ⟨-, sum, undone, -⟩ := quarter_turns_act first second both east .left
  exact ⟨first, second, both, sum, undone⟩

end Heading

end BlockPlay

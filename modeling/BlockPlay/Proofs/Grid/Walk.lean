import BlockPlay.Proofs.Grid.Parse
import BlockPlay.Proofs.Grid.Path
import Mathlib.Order.Bounds.Defs

/-!
Walks measured in whole numbers, and the way back. A walk enters as many cells as it asks for, or all that lie in
front of the first wall, and one that gets through is undone by as many steps in the other direction.
-/
namespace BlockPlay

namespace Position

theorem step_back (p : Position) (h : Heading) (forward : Bool) :
    (p.step h forward).step h (!forward) = p := by
  cases forward <;> simp [step]

theorem along_back (h : Heading) (forward : Bool) (n : Nat) (p : Position) :
    (p.along h forward n).along h (!forward) n = p := by
  induction n with
  | zero => rfl
  | succ n ih => rw [along, along_succ, step_back, ih]

end Position

namespace Grid

/-- A cell of the map, in a column and a row, that is no wall. -/
def Free (g : Grid) (column row : Int) : Prop :=
  ∃ (x y : Nat) (c : Char), column = x ∧ row = y ∧ g.cell? x y = some c ∧ c ≠ Cell.wall

/-- The first so many cells on a way from a place are free. -/
def FreeRun (g : Grid) (p : Position) (way : Int × Int) (n : Nat) : Prop :=
  ∀ i, 1 ≤ i → i ≤ n → g.Free (p.x.toInt + i * way.1) (p.y.toInt + i * way.2)

variable {g : Grid} {h : Heading} {forward : Bool} {n k : Nat} {p : Position}

theorem open_iff_free : g.Open p ↔ g.Free p.x.toInt p.y.toInt := by
  constructor
  · rintro ⟨c, found, noWall⟩
    obtain ⟨x, y, column, row, cell⟩ := get?_eq_some_iff.mp found
    exact ⟨x, y, c, column, row, cell, noWall⟩
  · rintro ⟨x, y, c, column, row, cell, noWall⟩
    exact ⟨c, get?_eq_some_iff.mpr ⟨x, y, column, row, cell⟩, noWall⟩

/-- On a map whose size is a 32-bit number, the cells that steps lead to are those that lie on the way. -/
theorem clear_iff_freeRun (even : g.Even) (fits : g.Fits) (inside : g.Open p) :
    g.Clear h forward n p ↔ g.FreeRun p (h.way forward) n := by
  -- A step is exact only out of an open cell, so in both directions the cells so far carry the next one.
  constructor
  · intro clear i first last
    obtain ⟨j, rfl⟩ := Nat.exists_eq_add_of_le' first
    obtain ⟨column, row⟩ := toInt_along even fits inside clear (Nat.le_succ_of_le last)
    rw [← column, ← row]
    exact open_iff_free.mp (clear j last)
  · intro run
    induction n with
    | zero => exact nofun
    | succ n ih =>
      have clear := ih fun i first last => run i first (Nat.le_succ_of_le last)
      intro j before
      rcases Nat.lt_succ_iff_lt_or_eq.mp before with earlier | rfl
      · exact clear j earlier
      · obtain ⟨column, row⟩ := toInt_along even fits inside clear (Nat.le_refl (j + 1))
        rw [open_iff_free, column, row]
        exact run (j + 1) (Nat.succ_pos j) (Nat.le_refl _)

theorem Clear.walkOn_eq (clear : g.Clear h forward n p) :
    g.walkOn h forward n p = (p.along h forward n, none) := by
  rcases g.walkOn_cases h forward n p with ⟨-, through⟩ | ⟨k, blocked, -⟩
  · exact through
  · exact absurd blocked clear.not_blocked

/-- The way back is as clear as the way there, as long as it leads to an open cell. -/
theorem Clear.back (clear : g.Clear h forward n p) (inside : g.Open p) :
    g.Clear h (!forward) n (p.along h forward n) := by
  induction n with
  | zero => exact nofun
  | succ n ih =>
    have shorter := clear.mono (Nat.le_succ n)
    rw [clear_succ_iff, Position.along_succ, Position.step_back]
    exact ⟨isWall_eq_false_iff.mpr (open_along inside shorter), ih shorter⟩

/-- The least number is the only one that has no opposite. -/
theorem toInt_neg_of_ne_minValue {steps : Int32} (opposite : steps ≠ Int32.minValue) :
    (-steps).toInt = -steps.toInt := by
  have least : steps.toInt ≠ Int32.minValue.toInt := fun same => opposite (Int32.toInt_inj.mp same)
  have low := steps.le_toInt
  have high := steps.toInt_lt
  rw [Int32.toInt_minValue] at least
  rw [Int32.toInt_neg]
  exact Int.bmod_eq_of_le_mul_two (by omega) (by omega)

theorem walk_back (inside : g.Open p) {steps : Int32} (opposite : steps ≠ Int32.minValue)
    (through : (g.walk p h steps).2 = none) : g.walk (g.walk p h steps).1 h (-steps) = (p, none) := by
  rcases g.walkOn_cases h (0 ≤ steps) steps.toInt.natAbs p with ⟨clear, there⟩ | ⟨k, -, stopped⟩
  · -- No steps are forwards, and so is their opposite; otherwise the direction turns.
    by_cases still : steps = 0
    · subst still
      rfl
    · have turned : (decide (0 ≤ -steps)) = !decide (0 ≤ steps) := by
        have moves : steps.toInt ≠ 0 := fun none => still (Int32.toInt_inj.mp none)
        have ahead : 0 ≤ -steps ↔ ¬ 0 ≤ steps := by
          rw [Int32.le_iff_toInt_le, Int32.le_iff_toInt_le, toInt_neg_of_ne_minValue opposite, Int32.toInt_zero]
          omega
        rw [← decide_not]
        exact decide_eq_decide.mpr ahead
      have far : (-steps).toInt.natAbs = steps.toInt.natAbs := by
        rw [toInt_neg_of_ne_minValue opposite, Int.natAbs_neg]
      have arrived : (g.walk p h steps).1 = p.along h (0 ≤ steps) steps.toInt.natAbs := congrArg Prod.fst there
      rw [arrived, walk, turned, far, (clear.back inside).walkOn_eq, Position.along_back]
  · rw [walk, stopped] at through
    cases through

/-- What comes of a walk of so many steps that enters `k` cells: all that are free in front of the first wall, as
long as it asks for so many. The wall is the next cell, and no coordinate wraps around, neither on the way nor in
the step to the wall. -/
structure Measured (g : Grid) (p : Position) (h : Heading) (steps : Int32) (k : Nat) : Prop where
  longest : IsGreatest {n | n ≤ steps.toInt.natAbs ∧ g.FreeRun p (h.way (0 ≤ steps)) n} k
  column : (g.walk p h steps).1.x.toInt = p.x.toInt + k * (h.way (0 ≤ steps)).1
  row : (g.walk p h steps).1.y.toInt = p.y.toInt + k * (h.way (0 ≤ steps)).2
  through : (g.walk p h steps).2 = none ↔ k = steps.toInt.natAbs
  stopped : k < steps.toInt.natAbs → ∃ w, (g.walk p h steps).2 = some w ∧ g.isWall w ∧
    w.x.toInt = p.x.toInt + (k + 1) * (h.way (0 ≤ steps)).1 ∧
    w.y.toInt = p.y.toInt + (k + 1) * (h.way (0 ≤ steps)).2
  exact : ∀ i ≤ k, i < steps.toInt.natAbs → (p.along h (0 ≤ steps) i).StepsExactly h (0 ≤ steps)

theorem Clear.measured (even : g.Even) (fits : g.Fits) (inside : g.Open p) {steps : Int32}
    (clear : g.Clear h (0 ≤ steps) steps.toInt.natAbs p) : g.Measured p h steps steps.toInt.natAbs := by
  obtain ⟨column, row⟩ := toInt_along even fits inside clear (Nat.le_succ _)
  have walked : g.walk p h steps = (p.along h (0 ≤ steps) steps.toInt.natAbs, none) := clear.walkOn_eq
  exact {
    longest := ⟨⟨Nat.le_refl _, (clear_iff_freeRun even fits inside).mp clear⟩, fun _ within => within.1⟩
    column := by rw [walked, column]
    row := by rw [walked, row]
    through := by
      rw [walked]
      exact iff_of_true rfl rfl
    stopped := fun short => absurd short (Nat.lt_irrefl _)
    exact := fun _ before _ => (open_along inside (clear.mono before)).stepsExactly even fits h _ }

theorem Blocked.measured (even : g.Even) (fits : g.Fits) (inside : g.Open p) {steps : Int32}
    (blocked : g.Blocked h (0 ≤ steps) steps.toInt.natAbs p k)
    (stopped : g.walkOn h (0 ≤ steps) steps.toInt.natAbs p =
      (p.along h (0 ≤ steps) k, some (p.along h (0 ≤ steps) (k + 1)))) : g.Measured p h steps k := by
  obtain ⟨column, row⟩ := toInt_along even fits inside blocked.clear (Nat.le_succ k)
  obtain ⟨across, down⟩ := toInt_along even fits inside blocked.clear (Nat.le_refl (k + 1))
  have run {n : Nat} : g.Clear h (0 ≤ steps) n p ↔ g.FreeRun p (h.way (0 ≤ steps)) n :=
    clear_iff_freeRun even fits inside
  exact {
    longest := by
      refine ⟨⟨Nat.le_of_lt blocked.short, run.mp blocked.clear⟩, fun n within => Nat.le_of_not_lt fun beyond => ?_⟩
      -- A longer run would have the wall among its cells.
      exact (run.mpr within.2).not_blocked ⟨beyond, blocked.clear, blocked.wall⟩
    column := by rw [walk, stopped, column]
    row := by rw [walk, stopped, row]
    through := by
      rw [walk, stopped]
      exact iff_of_false nofun (Nat.ne_of_lt blocked.short)
    stopped := fun _ => by
      refine ⟨p.along h (0 ≤ steps) (k + 1), ?_, blocked.wall, ?_, ?_⟩
      · rw [walk, stopped]
      · rw [across, Int.natCast_succ]
      · rw [down, Int.natCast_succ]
    exact := fun _ before _ => (open_along inside (blocked.clear.mono before)).stepsExactly even fits h _ }

theorem exists_measured (even : g.Even) (fits : g.Fits) (inside : g.Open p) (h : Heading) (steps : Int32) :
    ∃ k, g.Measured p h steps k := by
  rcases g.walkOn_cases h (0 ≤ steps) steps.toInt.natAbs p with ⟨clear, -⟩ | ⟨k, blocked, stopped⟩
  · exact ⟨steps.toInt.natAbs, clear.measured even fits inside⟩
  · exact ⟨k, blocked.measured even fits inside stopped⟩

/-- Every walk on a map that was read can be so measured, and one that gets through leads back. -/
theorem walk_measured {rows : List (List Char)} {extra : List Char} (read : parse rows extra = .ok g)
    (fits : g.Fits) (inside : g.isWall p = false) (h : Heading) (steps : Int32) :
    (∃ k, g.Measured p h steps k) ∧
      (steps ≠ Int32.minValue → (g.walk p h steps).2 = none →
        g.walk (g.walk p h steps).1 h (-steps) = (p, none)) := by
  have start := isWall_eq_false_iff.mp inside
  exact ⟨exists_measured (parse_ok read).2.1 fits start h steps, fun opposite through => walk_back start opposite through⟩

theorem walk_measured_hall :
    let rows := [['#', '.', 'S', '.', '.']]
    let hall : Grid := ⟨rows, place 2 0⟩
    parse rows [] = .ok hall ∧ hall.Fits ∧ hall.isWall hall.start = false ∧
      (∃ k, hall.Measured hall.start .west Int32.minValue k) ∧
      (hall.walk hall.start .west (-2)).2 = none ∧
      hall.walk (hall.walk hall.start .west (-2)).1 .west 2 = (hall.start, none) := by
  intro rows hall
  have read : parse rows [] = .ok hall := rfl
  have fits : hall.Fits := ⟨by decide, by decide⟩
  have inside : hall.isWall hall.start = false := by decide
  have through : (hall.walk hall.start .west (-2)).2 = none := by decide
  exact ⟨read, fits, inside, (walk_measured read fits inside .west Int32.minValue).1, through,
    (walk_measured read fits inside .west (-2)).2 (by decide) through⟩

end Grid

end BlockPlay

import BlockPlay.Proofs.Grid.Map

/-!
Walks on a map. A walk goes cell by cell along one line until it is through or a wall is in the way; from
a cell of a map whose size is a 32-bit number, none of its coordinates wraps around, the wall included.
-/
namespace BlockPlay

/-- One step in whole numbers, along a heading or against it. -/
def Heading.way (h : Heading) (forward : Bool) : Int × Int :=
  if forward then (h.delta.1.toInt, h.delta.2.toInt) else (-h.delta.1.toInt, -h.delta.2.toInt)

theorem Heading.way_unit (h : Heading) (forward : Bool) :
    (h.way forward).1.natAbs + (h.way forward).2.natAbs = 1 := by
  cases h <;> cases forward <;> rfl

theorem Heading.delta_unit (h : Heading) :
    (-1 ≤ h.delta.1.toInt ∧ h.delta.1.toInt ≤ 1) ∧ -1 ≤ h.delta.2.toInt ∧ h.delta.2.toInt ≤ 1 := by
  cases h <;> decide

namespace Position

/-- The cell that lies so many steps away. -/
def along (h : Heading) (forward : Bool) : Nat → Position → Position
  | 0, p => p
  | n + 1, p => along h forward n (p.step h forward)

/-- No coordinate wraps around in a step. -/
def StepsExactly (p : Position) (h : Heading) (forward : Bool) : Prop :=
  (p.step h forward).x.toInt = p.x.toInt + (h.way forward).1 ∧
    (p.step h forward).y.toInt = p.y.toInt + (h.way forward).2

variable (h : Heading) (forward : Bool)

theorem along_succ (n : Nat) (p : Position) :
    p.along h forward (n + 1) = (p.along h forward n).step h forward := by
  induction n generalizing p with
  | zero => rfl
  | succ n ih => rw [along, ih, along]

theorem toInt_add_unit {a d : Int32} (low : 0 ≤ a.toInt) (high : a.toInt < Int32.maxValue.toInt)
    (least : -1 ≤ d.toInt) (most : d.toInt ≤ 1) : (a + d).toInt = a.toInt + d.toInt := by
  rw [Int32.toInt_maxValue] at high
  rw [Int32.toInt_add]
  exact Int.bmod_eq_of_le_mul_two (by omega) (by omega)

theorem toInt_sub_unit {a d : Int32} (low : 0 ≤ a.toInt) (high : a.toInt < Int32.maxValue.toInt)
    (least : -1 ≤ d.toInt) (most : d.toInt ≤ 1) : (a - d).toInt = a.toInt + -d.toInt := by
  rw [Int32.toInt_maxValue] at high
  rw [Int32.toInt_sub]
  exact Int.bmod_eq_of_le_mul_two (by omega) (by omega)

theorem stepsExactly {p : Position} (left : 0 ≤ p.x.toInt) (right : p.x.toInt < Int32.maxValue.toInt)
    (above : 0 ≤ p.y.toInt) (below : p.y.toInt < Int32.maxValue.toInt) : p.StepsExactly h forward := by
  obtain ⟨⟨least, most⟩, lowest, highest⟩ := h.delta_unit
  cases forward with
  | true => exact ⟨toInt_add_unit left right least most, toInt_add_unit above below lowest highest⟩
  | false => exact ⟨toInt_sub_unit left right least most, toInt_sub_unit above below lowest highest⟩

end Position

/-- Whether a move goes ahead, and how many cells it asks for. -/
def Op.stride? : Op → Option (Bool × Nat)
  | leaf _ (.move steps) => some (0 ≤ steps, steps.toInt.natAbs)
  | _ => none

theorem Op.stride?_unique {op : Op} {forward forward' : Bool} {n n' : Nat}
    (stride : op.stride? = some (forward, n)) (stride' : op.stride? = some (forward', n')) :
    forward = forward' ∧ n = n' := by
  rw [stride, Option.some.injEq, Prod.mk.injEq] at stride'
  exact stride'

namespace Grid

/-- A cell of the map that is no wall. -/
def Open (g : Grid) (p : Position) : Prop := ∃ c, g.get? p = some c ∧ c ≠ Cell.wall

theorem isWall_eq_false_iff {g : Grid} {p : Position} : g.isWall p = false ↔ g.Open p := by
  simp only [isWall, Open]
  cases g.get? p <;> simp

/-- The number of cells that a walk of so many steps enters. -/
def paces (g : Grid) (h : Heading) (forward : Bool) : Nat → Position → Nat
  | 0, _ => 0
  | n + 1, p =>
    if g.isWall (p.step h forward) then 0 else paces g h forward n (p.step h forward) + 1

/-- The first so many cells on the way are no walls. -/
def Clear (g : Grid) (h : Heading) (forward : Bool) (n : Nat) (p : Position) : Prop :=
  ∀ k < n, g.Open (p.along h forward (k + 1))

/-- A walk of so many steps enters `k` cells, and the next one is a wall. -/
structure Blocked (g : Grid) (h : Heading) (forward : Bool) (n : Nat) (p : Position) (k : Nat) : Prop where
  short : k < n
  clear : g.Clear h forward k p
  wall : g.isWall (p.along h forward (k + 1))

variable {g : Grid} {h : Heading} {forward : Bool} {n k : Nat} {p : Position}

theorem Clear.mono (clear : g.Clear h forward n p) (fewer : k ≤ n) : g.Clear h forward k p :=
  fun j before => clear j (Nat.lt_of_lt_of_le before fewer)

theorem Clear.not_blocked (clear : g.Clear h forward n p) : ¬ g.Blocked h forward n p k := by
  intro blocked
  have next := isWall_eq_false_iff.mpr (clear k blocked.short)
  rw [blocked.wall] at next
  cases next

theorem Blocked.unique {k' : Nat} (blocked : g.Blocked h forward n p k)
    (blocked' : g.Blocked h forward n p k') : k = k' := by
  have notBefore {i j : Nat} (wall : g.Blocked h forward n p i) (longer : g.Clear h forward j p) : j ≤ i := by
    refine Nat.le_of_not_lt fun beyond => ?_
    exact longer.not_blocked ⟨beyond, wall.clear, wall.wall⟩
  exact Nat.le_antisymm (notBefore blocked' blocked.clear) (notBefore blocked blocked'.clear)

theorem clear_succ_iff :
    g.Clear h forward (n + 1) p ↔
      g.isWall (p.step h forward) = false ∧ g.Clear h forward n (p.step h forward) := by
  rw [isWall_eq_false_iff]
  constructor
  · exact fun clear => ⟨clear 0 (Nat.succ_pos n), fun k before => clear (k + 1) (Nat.succ_lt_succ before)⟩
  · rintro ⟨first, later⟩ (_ | k) before
    · exact first
    · exact later k (Nat.lt_of_succ_lt_succ before)

/-- A walk gets through, or it stops in front of the first wall and tells of it. -/
theorem walkOn_cases (g : Grid) (h : Heading) (forward : Bool) (n : Nat) (p : Position) :
    g.Clear h forward n p ∧ g.walkOn h forward n p = (p.along h forward n, none) ∨
    ∃ k, g.Blocked h forward n p k ∧
      g.walkOn h forward n p = (p.along h forward k, some (p.along h forward (k + 1))) := by
  induction n generalizing p with
  | zero => exact .inl ⟨nofun, rfl⟩
  | succ n ih =>
    simp only [walkOn]
    split
    next wall => exact .inr ⟨0, ⟨Nat.succ_pos n, nofun, wall⟩, rfl⟩
    next open_ =>
      have first := eq_false_of_ne_true open_
      rcases ih (p.step h forward) with ⟨clear, through⟩ | ⟨k, blocked, stopped⟩
      · exact .inl ⟨clear_succ_iff.mpr ⟨first, clear⟩, through⟩
      · have longer : g.Blocked h forward (n + 1) p (k + 1) :=
          ⟨Nat.succ_lt_succ blocked.short, clear_succ_iff.mpr ⟨first, blocked.clear⟩, blocked.wall⟩
        exact .inr ⟨k + 1, longer, stopped⟩

theorem Clear.paces (clear : g.Clear h forward n p) : g.paces h forward n p = n := by
  induction n generalizing p with
  | zero => rfl
  | succ n ih =>
    obtain ⟨first, later⟩ := clear_succ_iff.mp clear
    rw [Grid.paces, if_neg (ne_true_of_eq_false first), ih later]

theorem Blocked.paces (blocked : g.Blocked h forward n p k) : g.paces h forward n p = k := by
  induction n generalizing p k with
  | zero => exact absurd blocked.short (Nat.not_lt_zero k)
  | succ n ih =>
    cases k with
    | zero => exact if_pos blocked.wall
    | succ k =>
      obtain ⟨first, later⟩ := clear_succ_iff.mp blocked.clear
      have rest : g.Blocked h forward n (p.step h forward) k :=
        ⟨Nat.lt_of_succ_lt_succ blocked.short, later, blocked.wall⟩
      rw [Grid.paces, if_neg (ne_true_of_eq_false first), ih rest]

theorem Open.stepsExactly (even : g.Even) (fits : g.Fits) (inside : g.Open p) (h : Heading)
    (forward : Bool) : p.StepsExactly h forward := by
  obtain ⟨c, found, -⟩ := inside
  obtain ⟨x, y, column, row, cell⟩ := get?_eq_some_iff.mp found
  obtain ⟨across, down⟩ := cell?_bounds even cell
  obtain ⟨wide, high⟩ := fits
  exact Position.stepsExactly h forward (by omega) (by omega) (by omega) (by omega)

theorem open_along (inside : g.Open p) (clear : g.Clear h forward n p) : g.Open (p.along h forward n) := by
  cases n with
  | zero => exact inside
  | succ n => exact clear n (Nat.lt_succ_self n)

/-- Cells on the way lie one step apart, without wrapping around, up to the first wall. -/
theorem toInt_along (even : g.Even) (fits : g.Fits) (inside : g.Open p) (clear : g.Clear h forward n p)
    (within : k ≤ n + 1) :
    (p.along h forward k).x.toInt = p.x.toInt + k * (h.way forward).1 ∧
      (p.along h forward k).y.toInt = p.y.toInt + k * (h.way forward).2 := by
  induction k with
  | zero => simp [Position.along]
  | succ k ih =>
    obtain ⟨column, row⟩ := ih (Nat.le_of_succ_le within)
    have last := open_along inside (clear.mono (Nat.le_of_succ_le_succ within))
    obtain ⟨across, down⟩ := last.stepsExactly even fits h forward
    rw [Position.along_succ, across, down, column, row]
    constructor <;> rw [Int.natCast_succ, Int.add_mul, Int.one_mul, Int.add_assoc]

theorem distance_along (even : g.Even) (fits : g.Fits) (inside : g.Open p)
    (clear : g.Clear h forward n p) : p.distance (p.along h forward n) = n := by
  obtain ⟨column, row⟩ := toInt_along even fits inside clear (Nat.le_succ n)
  have unit := h.way_unit forward
  have gap (a w : Int) : (a - (a + n * w)).natAbs = n * w.natAbs := by
    rw [show a - (a + n * w) = -(n * w) by omega, Int.natAbs_neg, Int.natAbs_mul, Int.natAbs_natCast]
  rw [Position.distance, column, row, gap, gap, ← Nat.mul_add, unit, Nat.mul_one]

end Grid

end BlockPlay

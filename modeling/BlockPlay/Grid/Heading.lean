import BlockPlay.Decimal.Style
import BlockPlay.Program.Op
import BlockPlay.Run.Game

/-!
The four headings of a grid, and cells next to each other. Rows are counted downwards.
-/
namespace BlockPlay

inductive Heading where
  | north
  | east
  | south
  | west
  deriving DecidableEq, Repr, Inhabited

namespace Heading

/-- Clockwise from north. -/
def all : List Heading := [north, east, south, west]

def name : Heading → String
  | north => "north"
  | east => "east"
  | south => "south"
  | west => "west"

def quarters : Heading → Int
  | north => 0
  | east => 1
  | south => 2
  | west => 3

def ofQuarters (n : Int) : Heading :=
  match (n % 4).toNat with
  | 0 => north
  | 1 => east
  | 2 => south
  | _ => west

def delta : Heading → Int32 × Int32
  | north => (0, -1)
  | east => (1, 0)
  | south => (0, 1)
  | west => (-1, 0)

/-- The distance from a whole number of quarter turns that is overlooked: 1e-9. -/
def tolerance : Decimal.Binary := ⟨false, 4835703278458517, -82⟩

/-- The number of quarter turns in an angle, if it is whole. -/
def quarterTurns? (degrees : Float) : Option Int :=
  (Decimal.Binary.ofFloat? degrees).bind fun b =>
    let q := b.divide 90
    if q.fartherThan q.round tolerance then none else some q.round

/-- The heading after a turn by a whole number of quarter turns. -/
def turn? (h : Heading) (d : Direction) (degrees : Float) : Option Heading :=
  (quarterTurns? degrees).map fun n => ofQuarters (h.quarters - d.sign * n)

def noTurn (degrees : Float) : Fault :=
  .refused s!"grid turns must be a multiple of 90 degrees, got {Decimal.plain.render degrees}"

theorem ofQuarters_quarters (h : Heading) : ofQuarters h.quarters = h := by
  cases h <;> rfl

end Heading

structure Position where
  x : Int32
  y : Int32
  deriving DecidableEq, Repr, Inhabited

namespace Position

def origin : Position := ⟨0, 0⟩

def step (p : Position) (h : Heading) (forward : Bool) : Position :=
  let (dx, dy) := h.delta
  if forward then ⟨p.x + dx, p.y + dy⟩ else ⟨p.x - dx, p.y - dy⟩

def describe (p : Position) : String := s!"({p.x.toInt}, {p.y.toInt})"

def before (p q : Position) : Bool := p.x < q.x || (p.x == q.x && p.y ≤ q.y)

/-- Cells on the way between two cells of a row or a column. -/
def distance (p q : Position) : Nat :=
  (p.x.toInt - q.x.toInt).natAbs + (p.y.toInt - q.y.toInt).natAbs

end Position

end BlockPlay

import BlockPlay.Grid.Basic
import BlockPlay.Run.Pace

/-!
Mazes. A move that ends on a goal wins; a move into a wall loses.
-/
namespace BlockPlay

structure Maze where
  grid : Grid
  facing : Heading
  deriving DecidableEq, Repr

namespace Maze

def goal : Char := 'G'

def new (rows : List (List Char)) (facing : Heading) : Except LevelFault Maze :=
  match Grid.parse rows [goal] with
  | .error f => .error f
  | .ok grid => if (grid.find goal).isEmpty then .error .mazeWithoutGoal else .ok ⟨grid, facing⟩

/-- Where the walker is, and the number of cells that it has entered. -/
structure State where
  position : Position
  facing : Heading
  moves : UInt32
  deriving DecidableEq, Repr

def State.blank : State := ⟨.origin, .north, 0⟩

namespace State

def describe (s : State) : String := s!"at {s.position.describe} facing {s.facing.name}"

end State

def initial (m : Maze) : State := ⟨m.grid.start, m.facing, 0⟩

def move (m : Maze) (steps : Int32) (s : State) : Outcome × State :=
  let (position, wall) := m.grid.walk s.position s.facing steps
  let moved := s.moves + UInt32.ofNat (s.position.distance position)
  let outcome : Outcome :=
    match wall with
    | some w => .lost s!"hit a wall at {w.describe}"
    | none => if m.grid.get? position = some goal then .won "reached the goal" else .ongoing
  (outcome, { s with position := position, moves := moved })

def apply (m : Maze) (pace : Pace) (op : Op) (s : State) : Answer State Outcome :=
  match op with
  | .leaf _ .start => ⟨.ok .ongoing, s, 0⟩
  | .leaf _ (.move steps) =>
    let (outcome, after) := m.move steps s
    ⟨.ok outcome, after, pace.step⟩
  | .leaf _ (.turn direction degrees) =>
    match s.facing.turn? direction degrees with
    | some facing => ⟨.ok .ongoing, { s with facing := facing }, pace.step⟩
    | none => ⟨.error (Heading.noTurn degrees), s, pace.step⟩
  | .leaf _ (.wait millis) => ⟨.ok .ongoing, s, pace.hold millis.toNat⟩
  | op => ⟨.error (Fault.unsupported op), s, 0⟩

def game (m : Maze) (pace : Pace) : Game State where
  reset _ := ⟨.ok (), m.initial, 0⟩
  apply := m.apply pace

end Maze

end BlockPlay

import BlockPlay.Grid.Basic
import BlockPlay.Run.Pace

/-!
Farms. There are items to collect and plots to tend: a crop is planted, watered and harvested, each on
its plot. Work on the wrong cell loses, and so does a move into a wall; a farm is won when as much has
been collected and harvested as its goal asks for.
-/
namespace BlockPlay

namespace Farm

structure Goal where
  collect : UInt32
  harvest : UInt32
  deriving DecidableEq, Repr, Inhabited

def Goal.nothing : Goal := ⟨0, 0⟩

inductive Plot where
  | empty
  | seeded
  | watered
  deriving DecidableEq, Repr, Inhabited

def Plot.name : Plot → String
  | empty => "empty"
  | seeded => "seeded"
  | watered => "watered"

def item : Char := '*'
def plot : Char := 'o'

/-- Where the farmer is, what still lies on the map, how the plots stand, and what has been done. -/
structure State where
  position : Position
  facing : Heading
  items : List Position
  plots : List (Position × Plot)
  collected : UInt32
  harvested : UInt32
  deriving DecidableEq, Repr

namespace State

def blank : State := ⟨.origin, .north, [], [], 0, 0⟩

def describe (s : State) : String :=
  s!"at {s.position.describe} facing {s.facing.name}, {s.collected.toNat} collected, "
    ++ s!"{s.harvested.toNat} harvested"

def plotHere? (s : State) : Option Plot := s.plots.lookup s.position

def setPlot (s : State) (p : Plot) : State :=
  { s with plots := s.plots.map fun (q, old) => if q = s.position then (q, p) else (q, old) }

def tend? (s : State) (source target : Plot) : Option State :=
  if s.plotHere? = some source then some (s.setPlot target) else none

end State

def Goal.metBy (g : Goal) (s : State) : Bool := g.collect ≤ s.collected && g.harvest ≤ s.harvested

end Farm

structure Farm where
  grid : Grid
  facing : Heading
  goal : Farm.Goal
  deriving DecidableEq, Repr

namespace Farm

def new (rows : List (List Char)) (facing : Heading) (goal : Goal) : Except LevelFault Farm :=
  match Grid.parse rows [item, plot] with
  | .error f => .error f
  | .ok grid =>
    let items := (grid.find item).length
    if goal = Goal.nothing then .error .farmWithoutGoal
    else if items < goal.collect.toNat then .error (.tooFewItems goal.collect.toNat items)
    else if 0 < goal.harvest ∧ (grid.find plot).isEmpty then .error .noPlot
    else .ok ⟨grid, facing, goal⟩

/-- Items and plots stand in the order of their columns. -/
def initial (f : Farm) : State where
  position := f.grid.start
  facing := f.facing
  items := (f.grid.find item).mergeSort Position.before
  plots := ((f.grid.find plot).mergeSort Position.before).map fun p => (p, .empty)
  collected := 0
  harvested := 0

def settle (f : Farm) (s : State) : Outcome :=
  if f.goal.metBy s then .won "the farm work is done" else .ongoing

def work (f : Farm) (pace : Pace) (s : State) (done : Option State) (refusal : String) :
    Answer State Outcome :=
  match done with
  | some after => ⟨.ok (f.settle after), after, pace.step⟩
  | none => ⟨.ok (.lost refusal), s, pace.step⟩

def move (f : Farm) (steps : Int32) (s : State) : Outcome × State :=
  let (position, wall) := f.grid.walk s.position s.facing steps
  let after := { s with position := position }
  match wall with
  | some w => (.lost s!"hit a wall at {w.describe}", after)
  | none => (f.settle after, after)

def collect? (s : State) : Option State :=
  if s.position ∈ s.items then
    some { s with items := s.items.erase s.position, collected := s.collected + 1 }
  else none

def harvest? (s : State) : Option State :=
  (s.tend? .watered .empty).map fun after => { after with harvested := after.harvested + 1 }

def apply (f : Farm) (pace : Pace) (op : Op) (s : State) : Answer State Outcome :=
  match op with
  | .leaf _ .start => ⟨.ok .ongoing, s, 0⟩
  | .leaf _ (.move steps) =>
    let (outcome, after) := f.move steps s
    ⟨.ok outcome, after, pace.step⟩
  | .leaf _ (.turn direction degrees) =>
    match s.facing.turn? direction degrees with
    | some facing =>
      let after := { s with facing := facing }
      ⟨.ok (f.settle after), after, pace.step⟩
    | none => ⟨.error (Heading.noTurn degrees), s, pace.step⟩
  | .leaf _ (.wait millis) => ⟨.ok (f.settle s), s, pace.hold millis.toNat⟩
  | .leaf _ .collect => f.work pace s (collect? s) "there is nothing to collect here"
  | .leaf _ .plant =>
    f.work pace s (s.tend? .empty .seeded)
      (if s.plotHere?.isSome then "this plot is already planted" else "there is no plot here")
  | .leaf _ .water => f.work pace s (s.tend? .seeded .watered) "there is nothing to water here"
  | .leaf _ .harvest => f.work pace s (harvest? s) "there is nothing ready to harvest here"
  | op => ⟨.error (Fault.unsupported op), s, 0⟩

def game (f : Farm) (pace : Pace) : Game State where
  reset _ := ⟨.ok (), f.initial, 0⟩
  apply := f.apply pace

end Farm

end BlockPlay

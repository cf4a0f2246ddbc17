import BlockPlay.Grid.Maze
import BlockPlay.Proofs.Grid.Parse
import BlockPlay.Proofs.Grid.Path
import BlockPlay.Proofs.Run.Course

/-!
Runs in a maze. The walker stays on open cells, and a run is won or lost by the first move that ends on a
goal or meets a wall.
-/
namespace BlockPlay.Maze

/-- A move takes all its steps and ends on a goal. -/
def Arrives (m : Maze) (op : Op) (s : State) : Prop :=
  ∃ forward n, op.stride? = some (forward, n) ∧ m.grid.Clear s.facing forward n s.position ∧
    m.grid.get? (s.position.along s.facing forward n) = some goal

/-- A move meets a wall, the first one on its way. -/
def Collides (m : Maze) (op : Op) (s : State) (wall : Position) : Prop :=
  ∃ forward n k, op.stride? = some (forward, n) ∧ m.grid.Blocked s.facing forward n s.position k ∧
    wall = s.position.along s.facing forward (k + 1)

/-- No coordinate wraps around on the way of a move, the first wall on it included. -/
def Exact (m : Maze) (op : Op) (s : State) : Prop :=
  ∀ forward n, op.stride? = some (forward, n) → ∀ k < n, m.grid.Clear s.facing forward k s.position →
    (s.position.along s.facing forward k).StepsExactly s.facing forward

/-- The number of cells that an instruction enters. -/
def entered (m : Maze) (op : Op) (s : State) : Nat :=
  match op.stride? with
  | some (forward, n) => m.grid.paces s.facing forward n s.position
  | none => 0

/-- The number of cells that instructions enter one after the other. -/
def enteredBy (m : Maze) (pace : Pace) : List Op → State → Nat
  | [], _ => 0
  | op :: ops, s => m.entered op s + m.enteredBy pace ops (m.apply pace op s).state

def State.moveTo (s : State) (p : Position) : State :=
  { s with position := p, moves := s.moves + UInt32.ofNat (s.position.distance p) }

/-- The state in which a run has taken so many leaves. -/
def after (m : Maze) (pace : Pace) (leaves : List Op) (k : Nat) : State :=
  Session.stateAfter (m.game pace) leaves m.initial k

/-- What an instruction can do: it keeps the walker in place, takes it to where it goes, or only to the
last cell in front of a wall. -/
inductive Applied (m : Maze) (op : Op) (s : State) : Except Fault Outcome → State → Prop
  | stays {result : Except Fault Outcome} (facing : Heading) (still : op.stride? = none)
      (quiet : ∀ outcome, result = .ok outcome → outcome = .ongoing) :
      Applied m op s result { s with facing := facing }
  | passes {forward : Bool} {n : Nat} (stride : op.stride? = some (forward, n))
      (clear : m.grid.Clear s.facing forward n s.position)
      (elsewhere : m.grid.get? (s.position.along s.facing forward n) ≠ some goal) :
      Applied m op s (.ok .ongoing) (s.moveTo (s.position.along s.facing forward n))
  | arrives {forward : Bool} {n : Nat} (stride : op.stride? = some (forward, n))
      (clear : m.grid.Clear s.facing forward n s.position)
      (there : m.grid.get? (s.position.along s.facing forward n) = some goal) :
      Applied m op s (.ok (.won "reached the goal")) (s.moveTo (s.position.along s.facing forward n))
  | collides {forward : Bool} {n k : Nat} (stride : op.stride? = some (forward, n))
      (blocked : m.grid.Blocked s.facing forward n s.position k) :
      Applied m op s
        (.ok (.lost s!"hit a wall at {(s.position.along s.facing forward (k + 1)).describe}"))
        (s.moveTo (s.position.along s.facing forward k))

theorem applied (m : Maze) (pace : Pace) (op : Op) (s : State) :
    m.Applied op s (m.apply pace op s).result (m.apply pace op s).state := by
  have quiet {fault : Fault} (outcome : Outcome) (ok : Except.error fault = .ok outcome) :
      outcome = .ongoing := by
    cases ok
  have goesOn (outcome : Outcome) (ok : (.ok .ongoing : Except Fault Outcome) = .ok outcome) :
      outcome = .ongoing := (Except.ok.inj ok).symm
  cases op with
  | loop block count body => exact .stays s.facing rfl quiet
  | leaf block action =>
    cases action with
    | move steps =>
      rw [apply, move, Grid.walk]
      rcases m.grid.walkOn_cases s.facing (0 ≤ steps) steps.toInt.natAbs s.position with
        ⟨clear, through⟩ | ⟨k, blocked, stopped⟩
      · rw [through]
        by_cases there : m.grid.get? (s.position.along s.facing (0 ≤ steps) steps.toInt.natAbs) = some goal
        · simp only [if_pos there]
          exact .arrives rfl clear there
        · simp only [if_neg there]
          exact .passes rfl clear there
      · rw [stopped]
        exact .collides rfl blocked
    | turn direction degrees =>
      rw [apply]
      split
      next facing turned => exact .stays facing rfl goesOn
      next => exact .stays s.facing rfl quiet
    | start => exact .stays s.facing rfl goesOn
    | wait millis => exact .stays s.facing rfl goesOn
    | _ => exact .stays s.facing rfl quiet

namespace Applied

variable {m : Maze} {op : Op} {s after : State} {result : Except Fault Outcome}

theorem isOpen (applied : m.Applied op s result after) (inside : m.grid.Open s.position) :
    m.grid.Open after.position := by
  cases applied with
  | stays => exact inside
  | passes _ clear => exact Grid.open_along inside clear
  | arrives _ clear => exact Grid.open_along inside clear
  | collides _ blocked => exact Grid.open_along inside blocked.clear

theorem moves (applied : m.Applied op s result after) (even : m.grid.Even) (fits : m.grid.Fits)
    (inside : m.grid.Open s.position) : after.moves = s.moves + UInt32.ofNat (m.entered op s) := by
  have counted {forward : Bool} {n : Nat} (clear : m.grid.Clear s.facing forward n s.position) :
      (s.moveTo (s.position.along s.facing forward n)).moves = s.moves + UInt32.ofNat n := by
    rw [State.moveTo, Grid.distance_along even fits inside clear]
  rw [entered]
  cases applied with
  | stays _ still =>
    rw [still]
    exact (UInt32.add_zero s.moves).symm
  | passes stride clear =>
    simp only [stride, clear.paces]
    exact counted clear
  | arrives stride clear =>
    simp only [stride, clear.paces]
    exact counted clear
  | collides stride blocked =>
    simp only [stride, blocked.paces]
    exact counted blocked.clear

/-- Only moves that win end on a goal. -/
theorem no_goal (applied : m.Applied op s (.ok .ongoing) after)
    (away : m.grid.get? s.position ≠ some goal) : m.grid.get? after.position ≠ some goal := by
  cases applied with
  | stays => exact away
  | passes _ _ elsewhere => exact elsewhere

theorem result_of_arrives (applied : m.Applied op s result after) (arrives : m.Arrives op s) :
    result = .ok (.won "reached the goal") := by
  obtain ⟨forward, n, stride, clear, there⟩ := arrives
  cases applied with
  | stays _ still => simp [still] at stride
  | passes stride' _ elsewhere =>
    obtain ⟨rfl, rfl⟩ := Op.stride?_unique stride stride'
    exact absurd there elsewhere
  | arrives => rfl
  | collides stride' blocked =>
    obtain ⟨rfl, rfl⟩ := Op.stride?_unique stride stride'
    exact absurd blocked clear.not_blocked

theorem arrives_of_won {message : String} (applied : m.Applied op s (.ok (.won message)) after) :
    m.Arrives op s ∧ message = "reached the goal" := by
  cases applied with
  | stays _ _ quiet => cases quiet _ rfl
  | arrives stride clear there => exact ⟨⟨_, _, stride, clear, there⟩, rfl⟩

theorem result_of_collides (applied : m.Applied op s result after) {wall : Position}
    (collides : m.Collides op s wall) : result = .ok (.lost s!"hit a wall at {wall.describe}") := by
  obtain ⟨forward, n, k, stride, blocked, rfl⟩ := collides
  cases applied with
  | stays _ still => simp [still] at stride
  | passes stride' clear =>
    obtain ⟨rfl, rfl⟩ := Op.stride?_unique stride stride'
    exact absurd blocked clear.not_blocked
  | arrives stride' clear =>
    obtain ⟨rfl, rfl⟩ := Op.stride?_unique stride stride'
    exact absurd blocked clear.not_blocked
  | collides stride' blocked' =>
    obtain ⟨rfl, rfl⟩ := Op.stride?_unique stride stride'
    obtain rfl := blocked.unique blocked'
    rfl

theorem collides_of_lost {message : String} (applied : m.Applied op s (.ok (.lost message)) after) :
    ∃ wall, m.Collides op s wall ∧ message = s!"hit a wall at {wall.describe}" := by
  cases applied with
  | stays _ _ quiet => cases quiet _ rfl
  | collides stride blocked => exact ⟨_, ⟨_, _, _, stride, blocked, rfl⟩, rfl⟩

end Applied

open Session

variable {m : Maze} {pace : Pace}

theorem carried_isOpen (ops : List Op) {s : State} (inside : m.grid.Open s.position) :
    m.grid.Open (carried (m.game pace) ops s).position :=
  carried_keeps (fun op s inside => (m.applied pace op s).isOpen inside) ops inside

theorem carried_moves (even : m.grid.Even) (fits : m.grid.Fits) (ops : List Op) {s : State}
    (inside : m.grid.Open s.position) :
    (carried (m.game pace) ops s).moves = s.moves + UInt32.ofNat (m.enteredBy pace ops s) := by
  induction ops generalizing s with
  | nil => exact (UInt32.add_zero s.moves).symm
  | cons op ops ih =>
    have applied := m.applied pace op s
    have later := ih (applied.isOpen inside)
    rw [applied.moves even fits inside, UInt32.add_assoc, ← UInt32.ofNat_add] at later
    exact later

theorem new_ok {rows : List (List Char)} {facing : Heading} (accepted : Maze.new rows facing = .ok m) :
    m.grid.Even ∧ (m.grid.Fits → m.grid.get? m.initial.position = some Cell.start) := by
  rw [Maze.new] at accepted
  split at accepted
  next => cases accepted
  next grid read =>
    split at accepted
    next => cases accepted
    next =>
      cases accepted
      exact (Grid.parse_ok read).2

/-- The story of a run in a maze that nobody asks to stop: where its leaves take the walker, how many cells
they enter, and which one of them decides the game. -/
structure Journey (m : Maze) (pace : Pace) (limit : Nat) (leaves : List Op) (last : Session State) : Prop
    extends Played (m.game pace) limit leaves m.initial last where
  inside : ∀ k ≤ last.steps, m.grid.Open (m.after pace leaves k).position
  counts : ∀ k ≤ last.steps, m.enteredBy pace (leaves.take k) m.initial < UInt32.size →
    (m.after pace leaves k).moves.toNat = m.enteredBy pace (leaves.take k) m.initial
  away : ∀ k < last.steps, m.grid.get? (m.after pace leaves k).position ≠ some goal
  exact : ∀ k < last.steps, ∀ op, leaves[k]? = some op → m.Exact op (m.after pace leaves k)
  wins : ∀ k < last.steps, ∀ op, leaves[k]? = some op → m.Arrives op (m.after pace leaves k) →
    last.steps = k + 1 ∧ last.ending? = some (.completed (.won "reached the goal"))
  won : ∀ message, last.ending? = some (.completed (.won message)) →
    ∃ k op, last.steps = k + 1 ∧ leaves[k]? = some op ∧ m.Arrives op (m.after pace leaves k) ∧
      message = "reached the goal"
  loses : ∀ k < last.steps, ∀ op wall, leaves[k]? = some op → m.Collides op (m.after pace leaves k) wall →
    last.steps = k + 1 ∧ last.ending? = some (.completed (.lost s!"hit a wall at {wall.describe}"))
  lost : ∀ message, last.ending? = some (.completed (.lost message)) →
    ∃ k op wall, last.steps = k + 1 ∧ leaves[k]? = some op ∧ m.Collides op (m.after pace leaves k) wall ∧
      message = s!"hit a wall at {wall.describe}"

/-- Every program makes such a journey in every maze that is accepted, whatever was played before. -/
theorem run_journey {rows : List (List Char)} {facing : Heading} (accepted : Maze.new rows facing = .ok m)
    (fits : m.grid.Fits) (pace : Pace) (limit : Nat) (ops : List Op) (state : State) :
    m.Journey pace limit (Op.unrolls ops)
      ((Session.new ops state).run (m.game pace) limit fun _ _ => false) := by
  generalize ran : (Session.new ops state).run (m.game pace) limit (fun _ _ => false) = last
  obtain ⟨even, onStart⟩ := new_ok accepted
  have start := onStart fits
  have inside : m.grid.Open m.initial.position := ⟨_, start, by decide⟩
  have away : m.grid.get? m.initial.position ≠ some goal := by
    rw [start]
    decide
  obtain ⟨played, ending, ended, course⟩ := run_played (m.game pace) limit ops state rfl ran.symm
  have isOpen (k : Nat) : m.grid.Open (m.after pace (Op.unrolls ops) k).position := carried_isOpen _ inside
  have said (k : Nat) (op : Op) := m.applied pace op (m.after pace (Op.unrolls ops) k)
  refine ⟨played, fun k _ => isOpen k, fun k _ below => ?_, fun k started => ?_,
    fun k started op leaf forward n stride j before clear => ?_, fun k started op leaf arrives => ?_,
    fun message won => ?_, fun k started op wall leaf collides => ?_, fun message lost => ?_⟩
  · rw [after, stateAfter, carried_moves even fits _ inside, initial, UInt32.zero_add]
    exact UInt32.toNat_ofNat_of_lt' below
  · refine course.holds_before (fun s => m.grid.get? s.position ≠ some goal) away
      (fun op s ongoing before => ?_) started
    have applied := m.applied pace op s
    exact Applied.no_goal (ongoing ▸ applied) before
  · exact (Grid.open_along (isOpen k) clear).stepsExactly even fits _ _
  · have won := (said k op).result_of_arrives arrives
    obtain ⟨steps, here⟩ := course.settles started leaf (congrArg (settled op.block) won)
    exact ⟨steps, ended.trans (congrArg some here)⟩
  · obtain ⟨k, op, steps, leaf, result⟩ := course.won (Option.some.inj (ended.symm.trans won))
    exact ⟨k, op, steps, leaf, (result ▸ said k op).arrives_of_won⟩
  · have lost := (said k op).result_of_collides collides
    obtain ⟨steps, here⟩ := course.settles started leaf (congrArg (settled op.block) lost)
    exact ⟨steps, ended.trans (congrArg some here)⟩
  · obtain ⟨k, op, steps, leaf, result⟩ := course.lost (Option.some.inj (ended.symm.trans lost))
    obtain ⟨wall, collides, same⟩ := (result ▸ said k op).collides_of_lost
    exact ⟨k, op, wall, steps, leaf, collides, same⟩

theorem run_journey_corridor :
    let rows := [['#', 'S', '.', 'G']]
    let corridor : Maze := ⟨⟨rows, Grid.place 1 0⟩, .east⟩
    let ops : List Op := [.loop ⟨"again"⟩ 2 [.leaf ⟨"ahead"⟩ (.move 1)], .leaf ⟨"back"⟩ (.move (-2))]
    Maze.new rows .east = .ok corridor ∧ corridor.grid.Fits ∧
      corridor.Journey .instant 5 (Op.unrolls ops)
        ((Session.new ops .blank).run (corridor.game .instant) 5 fun _ _ => false) := by
  intro rows corridor ops
  have accepted : Maze.new rows .east = .ok corridor := rfl
  have fits : corridor.grid.Fits := ⟨by decide, by decide⟩
  exact ⟨accepted, fits, run_journey accepted fits .instant 5 ops .blank⟩

end BlockPlay.Maze

import BlockPlay.Grid.Farm
import BlockPlay.Proofs.Grid.Parse
import BlockPlay.Proofs.Grid.Path
import BlockPlay.Proofs.Run.Course

/-!
Runs on a farm. An instruction takes the farmer somewhere or is a chore on his cell. Only the chores that
a goal counts can win a farm, and what is refused leaves everything as it is.
-/
namespace BlockPlay.Farm

/-- What a plot needs from one harvest to the next. -/
inductive Care where
  | plant
  | water
  | harvest
  deriving DecidableEq, Repr

namespace Care

def source : Care → Plot
  | plant => .empty
  | water => .seeded
  | harvest => .watered

def target : Care → Plot
  | plant => .seeded
  | water => .watered
  | harvest => .empty

/-- The number of crops that it brings in. -/
def crops : Care → UInt32
  | harvest => 1
  | _ => 0

end Care

inductive Chore where
  | collect
  | tend (care : Care)
  deriving DecidableEq, Repr

def chore? : Op → Option Chore
  | .leaf _ .collect => some .collect
  | .leaf _ .plant => some (.tend .plant)
  | .leaf _ .water => some (.tend .water)
  | .leaf _ .harvest => some (.tend .harvest)
  | _ => none

def State.does? (s : State) : Chore → Option State
  | .collect => collect? s
  | .tend care =>
    (s.tend? care.source care.target).map fun after =>
      { after with harvested := after.harvested + care.crops }

/-- Nothing has changed since a state, except that a walk may have come to stand in front of the wall that the
message tells of. -/
def Spared (f : Farm) (op : Op) (s : State) (message : String) (next : State) : Prop :=
  op.stride? = none ∧ next = s ∨
    ∃ forward n k, op.stride? = some (forward, n) ∧ f.grid.Blocked s.facing forward n s.position k ∧
      next = { s with position := s.position.along s.facing forward k } ∧
      message = s!"hit a wall at {(s.position.along s.facing forward (k + 1)).describe}"

/-- The state in which a run has taken so many leaves. -/
def after (f : Farm) (pace : Pace) (leaves : List Op) (k : Nat) : State :=
  Session.stateAfter (f.game pace) leaves f.initial k

variable {f : Farm} {pace : Pace} {op : Op} {s next : State}

theorem does?_tend_of_no_crops {care : Care} (none_ : care.crops = 0) :
    s.does? (.tend care) = s.tend? care.source care.target := by
  simp [State.does?, none_]

theorem does?_collect (did : s.does? .collect = some next) :
    s.position ∈ s.items ∧
      next = { s with items := s.items.erase s.position, collected := s.collected + 1 } := by
  simp only [State.does?, collect?] at did
  split at did
  next here =>
    cases did
    exact ⟨here, rfl⟩
  next => cases did

theorem does?_tend {care : Care} (did : s.does? (.tend care) = some next) :
    s.plotHere? = some care.source ∧
      next = { s.setPlot care.target with harvested := s.harvested + care.crops } := by
  obtain ⟨tended, tends, rfl⟩ := Option.map_eq_some_iff.mp did
  rw [State.tend?] at tends
  split at tends
  next ready =>
    cases tends
    exact ⟨ready, rfl⟩
  next => cases tends

theorem position_of_does? {chore : Chore} (did : s.does? chore = some next) : next.position = s.position := by
  cases chore with
  | collect =>
    obtain ⟨-, rfl⟩ := does?_collect did
    rfl
  | tend care =>
    obtain ⟨-, rfl⟩ := does?_tend did
    rfl

theorem settle_of_met (met : f.goal.metBy s) : f.settle s = .won "the farm work is done" := if_pos met

theorem settle_of_unmet (unmet : ¬ f.goal.metBy s) : f.settle s = .ongoing := if_neg unmet

/-- What an instruction can do. A chore may be refused; a walk may end in front of a wall. -/
inductive Applied (f : Farm) (op : Op) (s : State) : Except Fault Outcome → State → Prop
  | stays {result : Except Fault Outcome} (facing : Heading) (still : op.stride? = none)
      (idle : chore? op = none)
      (quiet : ∀ outcome, result = .ok outcome → outcome = .ongoing ∨ outcome = f.settle s) :
      Applied f op s result { s with facing := facing }
  | walks {forward : Bool} {n : Nat} (stride : op.stride? = some (forward, n)) (idle : chore? op = none)
      (clear : f.grid.Clear s.facing forward n s.position) :
      Applied f op s (.ok (f.settle s)) { s with position := s.position.along s.facing forward n }
  | collides {forward : Bool} {n k : Nat} (stride : op.stride? = some (forward, n)) (idle : chore? op = none)
      (blocked : f.grid.Blocked s.facing forward n s.position k) :
      Applied f op s
        (.ok (.lost s!"hit a wall at {(s.position.along s.facing forward (k + 1)).describe}"))
        { s with position := s.position.along s.facing forward k }
  | works {chore : Chore} {next : State} (still : op.stride? = none) (asked : chore? op = some chore)
      (did : s.does? chore = some next) : Applied f op s (.ok (f.settle next)) next
  | refuses {chore : Chore} (message : String) (still : op.stride? = none) (asked : chore? op = some chore)
      (undone : s.does? chore = none) : Applied f op s (.ok (.lost message)) s

theorem applied_work (f : Farm) (pace : Pace) {chore : Chore} (still : op.stride? = none)
    (asked : chore? op = some chore) {done : Option State} (does : s.does? chore = done) (refusal : String) :
    f.Applied op s (f.work pace s done refusal).result (f.work pace s done refusal).state := by
  cases done with
  | some next => exact .works still asked does
  | none => exact .refuses refusal still asked does

theorem applied (f : Farm) (pace : Pace) (op : Op) (s : State) :
    f.Applied op s (f.apply pace op s).result (f.apply pace op s).state := by
  have refused {fault : Fault} (outcome : Outcome) (ok : Except.error fault = .ok outcome) :
      outcome = .ongoing ∨ outcome = f.settle s := by
    cases ok
  have settled (outcome : Outcome) (ok : (.ok (f.settle s) : Except Fault Outcome) = .ok outcome) :
      outcome = .ongoing ∨ outcome = f.settle s := .inr (Except.ok.inj ok).symm
  cases op with
  | loop block count body => exact .stays s.facing rfl rfl refused
  | leaf block action =>
    cases action with
    | start => exact .stays s.facing rfl rfl fun outcome ok => .inl (Except.ok.inj ok).symm
    | move steps =>
      rw [apply, move, Grid.walk]
      rcases f.grid.walkOn_cases s.facing (0 ≤ steps) steps.toInt.natAbs s.position with
        ⟨clear, through⟩ | ⟨k, blocked, stopped⟩
      · rw [through]
        exact .walks rfl rfl clear
      · rw [stopped]
        exact .collides rfl rfl blocked
    | turn direction degrees =>
      rw [apply]
      split
      next facing turned => exact .stays facing rfl rfl settled
      next => exact .stays s.facing rfl rfl refused
    | wait millis => exact .stays s.facing rfl rfl settled
    | collect =>
      have collects : s.does? .collect = collect? s := rfl
      exact applied_work f pace rfl rfl collects _
    | plant =>
      have plants : s.does? (.tend .plant) = s.tend? .empty .seeded := does?_tend_of_no_crops rfl
      exact applied_work f pace rfl rfl plants _
    | water =>
      have waters : s.does? (.tend .water) = s.tend? .seeded .watered := does?_tend_of_no_crops rfl
      exact applied_work f pace rfl rfl waters _
    | harvest =>
      have harvests : s.does? (.tend .harvest) = harvest? s := rfl
      exact applied_work f pace rfl rfl harvests _
    | _ => exact .stays s.facing rfl rfl refused

theorem metBy_congr (goal : Goal) (collected : next.collected = s.collected)
    (harvested : next.harvested = s.harvested) : goal.metBy next = goal.metBy s := by
  rw [Goal.metBy, Goal.metBy, collected, harvested]

theorem Goal.eq_nothing_of_met {goal : Goal} (met : goal.metBy s) (uncollected : s.collected = 0)
    (unharvested : s.harvested = 0) : goal = nothing := by
  rw [metBy, uncollected, unharvested, Bool.and_eq_true, decide_eq_true_iff, decide_eq_true_iff] at met
  have none_ {n : UInt32} (least : n ≤ 0) : n = 0 :=
    UInt32.toNat_inj.mp (Nat.le_zero.mp (UInt32.le_iff_toNat_le.mp least))
  cases goal with
  | mk collect harvest =>
    obtain rfl : collect = 0 := none_ met.1
    obtain rfl : harvest = 0 := none_ met.2
    rfl

/-- The instruction is one that a goal counts. -/
def Earns (op : Op) : Prop := ∃ block, op = .leaf block .collect ∨ op = .leaf block .harvest

theorem earns_of_chore? {chore : Chore} (asked : chore? op = some chore)
    (counts : chore = .collect ∨ chore = .tend .harvest) : Earns op := by
  unfold chore? at asked
  split at asked <;> cases asked <;> rcases counts with counts | counts <;> cases counts
  · exact ⟨_, .inl rfl⟩
  · exact ⟨_, .inr rfl⟩

/-- A chore that is no counted one leaves the counts as they are. -/
theorem earns_or_same {chore : Chore} (asked : chore? op = some chore) (did : s.does? chore = some next) :
    Earns op ∨ next.collected = s.collected ∧ next.harvested = s.harvested := by
  cases chore with
  | collect => exact .inl (earns_of_chore? asked (.inl rfl))
  | tend care =>
    obtain ⟨-, rfl⟩ := does?_tend did
    cases care with
    | harvest => exact .inl (earns_of_chore? asked (.inr rfl))
    | plant => exact .inr ⟨rfl, UInt32.add_zero s.harvested⟩
    | water => exact .inr ⟨rfl, UInt32.add_zero s.harvested⟩

namespace Applied

variable {result : Except Fault Outcome} {message : String}

theorem isOpen (applied : f.Applied op s result next) (inside : f.grid.Open s.position) :
    f.grid.Open next.position := by
  cases applied with
  | stays => exact inside
  | walks _ _ clear => exact Grid.open_along inside clear
  | collides _ _ blocked => exact Grid.open_along inside blocked.clear
  | works _ _ did =>
    rw [position_of_does? did]
    exact inside
  | refuses => exact inside

/-- What is not won yet is won by what meets the goal. -/
theorem met_iff (applied : f.Applied op s result next) (unmet : ¬ f.goal.metBy s) :
    f.goal.metBy next ↔ result = .ok (.won "the farm work is done") := by
  have nothing := settle_of_unmet unmet
  cases applied with
  | stays facing _ _ quiet =>
    refine iff_of_false unmet fun won => ?_
    rcases quiet _ won with ongoing | settled
    · cases ongoing
    · rw [nothing] at settled
      cases settled
  | walks =>
    refine iff_of_false unmet fun won => ?_
    rw [nothing] at won
    cases won
  | collides => exact iff_of_false unmet nofun
  | works _ _ did =>
    by_cases met : f.goal.metBy next
    · exact iff_of_true met (congrArg Except.ok (settle_of_met met))
    · rw [settle_of_unmet met]
      exact iff_of_false met nofun
  | refuses => exact iff_of_false unmet nofun

/-- A farm is won by a chore that its goal counts. -/
theorem of_won (applied : f.Applied op s (.ok (.won message)) next) (unmet : ¬ f.goal.metBy s) :
    Earns op ∧ message = "the farm work is done" := by
  have nothing := settle_of_unmet unmet
  have settled {after : State} (won : f.settle after = .won message) :
      f.goal.metBy after ∧ message = "the farm work is done" := by
    by_cases met : f.goal.metBy after
    · exact ⟨met, Outcome.won.inj (won.symm.trans (settle_of_met met))⟩
    · rw [settle_of_unmet met] at won
      cases won
  -- With a result of its own, the instruction can be told apart by its cases.
  generalize won : (.ok (.won message) : Except Fault Outcome) = result at applied
  cases applied with
  | stays _ _ _ quiet =>
    rcases quiet _ won.symm with ongoing | same
    · cases ongoing
    · exact absurd (settled same.symm).1 unmet
  | walks => exact absurd (settled (Except.ok.inj won).symm).1 unmet
  | collides => cases won
  | works _ asked did =>
    obtain ⟨met, same⟩ := settled (Except.ok.inj won).symm
    rcases earns_or_same asked did with earns | ⟨collected, harvested⟩
    · exact ⟨earns, same⟩
    · exact absurd (metBy_congr f.goal collected harvested ▸ met) unmet
  | refuses => cases won

theorem of_lost (applied : f.Applied op s (.ok (.lost message)) next) : f.Spared op s message next := by
  have settled (after : State) : f.settle after ≠ .lost message := by
    rw [settle]
    split <;> nofun
  generalize lost : (.ok (.lost message) : Except Fault Outcome) = result at applied
  cases applied with
  | stays _ _ _ quiet =>
    rcases quiet _ lost.symm with ongoing | same
    · cases ongoing
    · exact absurd same.symm (settled s)
  | walks => exact absurd (Except.ok.inj lost).symm (settled s)
  | collides stride _ blocked =>
    exact .inr ⟨_, _, _, stride, blocked, rfl, Outcome.lost.inj (Except.ok.inj lost)⟩
  | works => exact absurd (Except.ok.inj lost).symm (settled next)
  | refuses _ still => exact .inl ⟨still, rfl⟩

end Applied

open Session

theorem new_ok {rows : List (List Char)} {facing : Heading} {goal : Goal}
    (accepted : Farm.new rows facing goal = .ok f) :
    f.grid.Even ∧ (f.grid.Fits → f.grid.Open f.initial.position) ∧ ¬ f.goal.metBy f.initial := by
  rw [Farm.new] at accepted
  split at accepted
  next => cases accepted
  next grid read =>
    simp only at accepted
    split at accepted
    next => cases accepted
    next something =>
      split at accepted
      next => cases accepted
      next =>
        split at accepted
        next => cases accepted
        next =>
          cases accepted
          obtain ⟨-, even, onStart⟩ := Grid.parse_ok read
          refine ⟨even, fun fits => ⟨_, onStart fits, by decide⟩, fun met => something ?_⟩
          exact Goal.eq_nothing_of_met met rfl rfl

theorem carried_isOpen (ops : List Op) (inside : f.grid.Open s.position) :
    f.grid.Open (carried (f.game pace) ops s).position :=
  carried_keeps (fun op s inside => (f.applied pace op s).isOpen inside) ops inside

theorem after_succ {leaves : List Op} {k : Nat} (leaf : leaves[k]? = some op) :
    f.after pace leaves (k + 1) = (f.apply pace op (f.after pace leaves k)).state := stateAfter_succ leaf

/-- The story of a run on a farm that nobody asks to stop: which of its leaves meets the goal, and what is
left of the farm when one of them fails. -/
structure Workday (f : Farm) (pace : Pace) (limit : Nat) (leaves : List Op) (last : Session State) : Prop
    extends Played (f.game pace) limit leaves f.initial last where
  unmet : ∀ k < last.steps, ¬ f.goal.metBy (f.after pace leaves k)
  wins : f.goal.metBy last.game ↔ last.ending? = some (.completed (.won "the farm work is done"))
  won : ∀ message, last.ending? = some (.completed (.won message)) →
    message = "the farm work is done" ∧ ∃ k op, last.steps = k + 1 ∧ leaves[k]? = some op ∧ Earns op
  failed : ∀ k < last.steps, ∀ op message, leaves[k]? = some op →
    (f.apply pace op (f.after pace leaves k)).result = .ok (.lost message) →
    f.Spared op (f.after pace leaves k) message (f.after pace leaves (k + 1))
  inside : f.grid.Fits → ∀ k ≤ last.steps, f.grid.Open (f.after pace leaves k).position

/-- Every program makes such a day on every farm that is accepted, whatever was played before. -/
theorem run_workday {rows : List (List Char)} {facing : Heading} {goal : Goal}
    (accepted : Farm.new rows facing goal = .ok f) (pace : Pace) (limit : Nat) (ops : List Op)
    (state : State) :
    f.Workday pace limit (Op.unrolls ops)
      ((Session.new ops state).run (f.game pace) limit fun _ _ => false) := by
  generalize ran : (Session.new ops state).run (f.game pace) limit (fun _ _ => false) = last
  obtain ⟨-, inside, unmet⟩ := new_ok accepted
  obtain ⟨played, ending, ended, course⟩ := run_played (f.game pace) limit ops state rfl ran.symm
  have before {k : Nat} (started : k < last.steps) : ¬ f.goal.metBy (f.after pace (Op.unrolls ops) k) := by
    refine course.holds_before (fun s => ¬ f.goal.metBy s) unmet (fun op s ongoing unmet met => ?_) started
    have won := ((f.applied pace op s).met_iff unmet).mp met
    cases ongoing.symm.trans won
  have said (k : Nat) (op : Op) := f.applied pace op (f.after pace (Op.unrolls ops) k)
  have winner {message : String} (won : last.ending? = some (.completed (.won message))) :=
    course.won (Option.some.inj (ended.symm.trans won))
  have state : last.game = f.after pace (Op.unrolls ops) last.steps := course.state
  refine ⟨played, fun k => before, ⟨fun met => ?_, fun won => ?_⟩, fun message won => ?_,
    fun k started op message leaf result => ?_, fun fits k _ => carried_isOpen _ (inside fits)⟩
  · -- The goal is unmet before the last leaf, so it is this leaf that meets it.
    rw [state] at met
    cases steps : last.steps with
    | zero =>
      rw [steps] at met
      exact absurd met unmet
    | succ k =>
      have started : k < last.steps := steps ▸ Nat.lt_succ_self k
      have leaf := List.getElem?_eq_getElem (Nat.lt_of_lt_of_le started course.within)
      rw [steps, after_succ leaf] at met
      have result := ((said k _).met_iff (before started)).mp met
      have settles := course.settles started leaf (congrArg (settled _) result)
      exact ended.trans (congrArg some settles.2)
  · obtain ⟨k, op, (steps : last.steps = k + 1), leaf, result⟩ := winner won
    have started : k < last.steps := steps ▸ Nat.lt_succ_self k
    rw [state, steps, after_succ leaf]
    exact ((said k op).met_iff (before started)).mpr result
  · obtain ⟨k, op, (steps : last.steps = k + 1), leaf, result⟩ := winner won
    have started : k < last.steps := steps ▸ Nat.lt_succ_self k
    obtain ⟨earns, same⟩ := Applied.of_won (result ▸ said k op) (before started)
    exact ⟨same, k, op, steps, leaf, earns⟩
  · have spared := said k op
    rw [result] at spared
    rw [after_succ leaf]
    exact spared.of_lost

theorem run_workday_allotment :
    let rows := [['S', '*', 'o']]
    let allotment : Farm := ⟨⟨rows, .origin⟩, .east, ⟨1, 0⟩⟩
    let ops : List Op := [.leaf ⟨"ahead"⟩ (.move 1), .leaf ⟨"pick"⟩ .collect, .leaf ⟨"home"⟩ (.move (-1))]
    Farm.new rows .east ⟨1, 0⟩ = .ok allotment ∧
      allotment.Workday .instant 5 (Op.unrolls ops)
        ((Session.new ops .blank).run (allotment.game .instant) 5 fun _ _ => false) := by
  intro rows allotment ops
  have accepted : Farm.new rows .east ⟨1, 0⟩ = .ok allotment := rfl
  exact ⟨accepted, run_workday accepted .instant 5 ops .blank⟩

end BlockPlay.Farm

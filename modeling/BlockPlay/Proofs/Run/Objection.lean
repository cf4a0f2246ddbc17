import BlockPlay.Canvas.Drawing
import BlockPlay.Grid.Farm
import BlockPlay.Grid.Maze
import BlockPlay.Proofs.Run.Refusal

/-!
Games that object to an instruction. The mazes, the farms and the canvases look at an instruction before they
change anything, so that one to which they object leaves the game as it was, and so does the run that it ends.
-/
namespace BlockPlay

/-- What the games have to say against an instruction. -/
inductive Objection : Op → Fault → Prop
  | unsupported (op : Op) : Objection op (.unsupported op)
  | turn {block : BlockId} {direction : Direction} {degrees : Float} :
      Objection (.leaf block (.turn direction degrees)) (Heading.noTurn degrees)
  | width {block : BlockId} {width : Float} : Objection (.leaf block (.width width)) (Canvas.noWidth width)

/-- An instruction to which the game objects leaves no trace. -/
def Game.Sparing {σ : Type} (game : Game σ) : Prop :=
  ∀ op state fault, (game.apply op state).result = .error fault →
    Objection op fault ∧ (game.apply op state).state = state

section Games

variable (pace : Pace)

theorem Maze.sparing (m : Maze) : (m.game pace).Sparing := by
  intro op s fault refused
  cases op with
  | loop block count body =>
    cases refused
    exact ⟨.unsupported _, rfl⟩
  | leaf block action =>
    cases action with
    | start | move | wait => cases refused
    | turn direction degrees =>
      simp only [game, apply] at refused ⊢
      split at refused
      next => cases refused
      next =>
        cases refused
        exact ⟨.turn, rfl⟩
    | _ =>
      cases refused
      exact ⟨.unsupported _, rfl⟩

theorem Farm.result_work_ne (f : Farm) (s : Farm.State) (done : Option Farm.State) (refusal : String)
    (fault : Fault) : (f.work pace s done refusal).result ≠ .error fault := by
  cases done <;> nofun

theorem Farm.sparing (f : Farm) : (f.game pace).Sparing := by
  intro op s fault refused
  cases op with
  | loop block count body =>
    cases refused
    exact ⟨.unsupported _, rfl⟩
  | leaf block action =>
    cases action with
    | start | wait => cases refused
    | move steps => cases refused
    | collect | plant | water | harvest => exact absurd refused (f.result_work_ne pace _ _ _ _)
    | turn direction degrees =>
      simp only [game, apply] at refused ⊢
      split at refused
      next => cases refused
      next =>
        cases refused
        exact ⟨.turn, rfl⟩
    | _ =>
      cases refused
      exact ⟨.unsupported _, rfl⟩

theorem Canvas.sparing (c : Canvas) : (c.game pace).Sparing := by
  intro op d fault refused
  cases op with
  | loop block count body =>
    cases refused
    exact ⟨.unsupported _, rfl⟩
  | leaf block action =>
    cases action with
    | start | turn | wait | pen | color => cases refused
    | move steps =>
      simp only [game, apply] at refused
      split at refused <;> cases refused
    | width width =>
      simp only [game, apply] at refused ⊢
      split at refused
      next => cases refused
      next unfit =>
        cases refused
        rw [if_neg unfit]
        exact ⟨.width, rfl⟩
    | _ =>
      cases refused
      exact ⟨.unsupported _, rfl⟩

end Games

namespace Session

variable {σ : Type} {game : Game σ} {limit : Nat} {stop : Nat → Nat → Bool}

/-- What a run that does not get through leaves behind. An instruction that is objected to has been started,
but the state is the one before it; otherwise all leaves that have been started have left their traces. -/
structure CutShort (game : Game σ) (leaves : List Op) (first : σ) (last : Session σ) : Prop where
  applied : last.applied = leaves.take last.steps
  refused : ∀ block message, last.ending? = some (.failed (.step block message)) →
    ∃ k op, last.steps = k + 1 ∧ leaves[k]? = some op ∧ op.block = block ∧
      last.game = stateAfter game leaves first k
  spent : ∀ most, last.ending? = some (.failed (.stepLimit most)) →
    last.game = stateAfter game leaves first last.steps
  cancelled : last.ending? = some .cancelled → last.game = stateAfter game leaves first last.steps

theorem run_cutShort (sparing : game.Sparing) {first : σ}
    (resets : ∀ state, ∃ millis, game.reset state = ⟨.ok (), first, millis⟩) (ops : List Op) (state : σ) :
    CutShort game (Op.unrolls ops) first ((new ops state).run game limit stop) := by
  obtain ⟨millis, reset⟩ := resets state
  obtain ⟨applied, ending, ended, course⟩ :=
    run_course game limit stop ops state (congrArg Answer.result reset) rfl
  rw [reset] at course
  refine ⟨applied, fun block message failed => ?_, fun _ _ => course.state, fun _ => course.state⟩
  obtain ⟨before, op, after, leaves, same, -, steps, refused, left⟩ := run_refused failed
  rw [reset] at refused left
  have here : stateAfter game (Op.unrolls ops) first before.length = carried game before first := by
    rw [leaves, stateAfter_append]
  refine ⟨before.length, op, steps, by simp [leaves], same, ?_⟩
  rw [left, here]
  exact (sparing op _ _ refused).2

end Session

open Session

/-- An instruction to which a maze, a farm or a canvas objects leaves it exactly as it was, in every state. A
run that ends with an objection names the block of the leaf that it has started last and reports the state
that the leaves before it have left; one that has used up its steps or is stopped reports the state that all
leaves have left that it has started. -/
theorem objections_leave_no_trace (pace : Pace) (limit : Nat) (stop : Nat → Nat → Bool) (ops : List Op) :
    (∀ m : Maze, (m.game pace).Sparing ∧ ∀ state,
      CutShort (m.game pace) (Op.unrolls ops) m.initial ((new ops state).run (m.game pace) limit stop)) ∧
    (∀ f : Farm, (f.game pace).Sparing ∧ ∀ state,
      CutShort (f.game pace) (Op.unrolls ops) f.initial ((new ops state).run (f.game pace) limit stop)) ∧
    (∀ c : Canvas, (c.game pace).Sparing ∧ ∀ state,
      CutShort (c.game pace) (Op.unrolls ops) c.initial ((new ops state).run (c.game pace) limit stop)) := by
  refine ⟨fun m => ?_, fun f => ?_, fun c => ?_⟩
  · exact ⟨m.sparing pace, run_cutShort (m.sparing pace) (fun _ => ⟨0, rfl⟩) ops⟩
  · exact ⟨f.sparing pace, run_cutShort (f.sparing pace) (fun _ => ⟨0, rfl⟩) ops⟩
  · exact ⟨c.sparing pace, run_cutShort (c.sparing pace) (fun _ => ⟨0, rfl⟩) ops⟩

theorem objections_leave_no_trace_askew :
    let maze : Maze := ⟨⟨[['S', '.', 'G']], .origin⟩, .east⟩
    let ops : List Op :=
      [.loop ⟨"twice"⟩ 2 [.leaf ⟨"ahead"⟩ (.move 1), .leaf ⟨"askew"⟩ (.turn .left 45)]]
    let last := (new ops .blank).run (maze.game .instant) 9 fun _ _ => false
    (∃ message, last.ending? = some (.failed (.step ⟨"askew"⟩ message))) ∧ last.steps = 2 ∧
      last.game = ⟨⟨1, 0⟩, .east, 1⟩ := by
  intro maze ops last
  have meets : Meets last _ _ := run_meets_start ops Maze.State.blank
  have failed : ∃ message, last.ending? = some (.failed (.step ⟨"askew"⟩ message)) := ⟨_, meets.1.trans rfl⟩
  obtain ⟨message, ended⟩ := failed
  obtain ⟨mazes, -, -⟩ := objections_leave_no_trace .instant 9 (fun _ _ => false) ops
  obtain ⟨k, op, steps, -, -, left⟩ := ((mazes maze).2 .blank).refused _ _ ended
  have two : last.steps = 2 := meets.2.1.trans rfl
  obtain rfl : k = 1 := Nat.succ.inj (steps.symm.trans two)
  exact ⟨⟨message, ended⟩, two, left⟩

end BlockPlay

import BlockPlay.Proofs.Grid.Maze
import BlockPlay.Proofs.Grid.Rotation
import Mathlib.Logic.Relation

/-!
What can be reached in a maze. The walker stays on the open cells that hang together with the start, and a
program of turns and single steps leads to any of them, so that a maze can be won if and only if a goal is
among them.
-/
namespace BlockPlay

theorem Position.exists_step_back (p : Position) (h : Heading) : ∃ h', p.step h false = p.step h' true := by
  cases h with
  | north => exact ⟨.south, by simp [step, Heading.delta]⟩
  | east => exact ⟨.west, by simp [step, Heading.delta, Int32.sub_eq_add_neg]⟩
  | south => exact ⟨.north, by simp [step, Heading.delta, Int32.sub_eq_add_neg]⟩
  | west => exact ⟨.east, by simp [step, Heading.delta]⟩

namespace Grid

/-- One step ahead, onto an open cell. -/
def Leads (g : Grid) (p q : Position) : Prop := (∃ h, q = p.step h true) ∧ g.Open q

/-- Any number of steps, from one open cell to the next. -/
def Reaches (g : Grid) : Position → Position → Prop := Relation.ReflTransGen g.Leads

variable {g : Grid} {h : Heading} {forward : Bool} {n : Nat} {p q : Position}

theorem leads_step (next : g.Open (p.step h forward)) : g.Leads p (p.step h forward) := by
  cases forward with
  | true => exact ⟨⟨h, rfl⟩, next⟩
  | false => exact ⟨p.exists_step_back h, next⟩

theorem Clear.reaches (clear : g.Clear h forward n p) : g.Reaches p (p.along h forward n) := by
  induction n with
  | zero => exact .refl
  | succ n ih =>
    have next := clear n (Nat.lt_succ_self n)
    rw [Position.along_succ] at next ⊢
    exact (ih (clear.mono (Nat.le_succ n))).tail (leads_step next)

theorem walk_ahead (next : g.Open (p.step h true)) : g.walk p h 1 = (p.step h true, none) := by
  change g.walkOn h true 1 p = _
  rw [walkOn, isWall_eq_false_iff.mpr next, if_neg Bool.false_ne_true, walkOn]

end Grid

def Heading.toward (facing target : Heading) : Action :=
  .turn .right (Float.ofInt (90 * (target.quarters - facing.quarters)))

theorem Heading.turn?_toward (facing target : Heading) :
    facing.turn? .right (Float.ofInt (90 * (target.quarters - facing.quarters))) = some target := by
  have bounds (h : Heading) : 0 ≤ h.quarters ∧ h.quarters ≤ 3 := by cases h <;> decide
  have exact : Exact (target.quarters - facing.quarters) := by
    have low := bounds facing
    have high := bounds target
    rw [Exact, abs_le]
    omega
  have around : facing.rotate (-Direction.right.sign * (target.quarters - facing.quarters)) = target := by
    rw [rotate, Direction.sign, neg_neg, one_mul, add_sub_cancel, ofQuarters_quarters]
  exact (exact.turn? facing .right).trans (congrArg some around)

/-- A program that goes one cell in each of these directions, one after the other. It ends with a move by no
cell, which wins wherever a goal is. -/
def route (facing : Heading) : List Heading → List Op
  | [] => [.leaf ⟨"arrive"⟩ (.move 0)]
  | h :: way => .leaf ⟨"turn"⟩ (facing.toward h) :: .leaf ⟨"go"⟩ (.move 1) :: route h way

theorem unrolls_route (facing : Heading) (way : List Heading) :
    Op.unrolls (route facing way) = route facing way := by
  induction way generalizing facing with
  | nil => rfl
  | cons h way ih => simp [route, Op.unrolls, Op.unroll, ih]

namespace Maze

/-- A run of these instructions that nobody asks to stop is won. -/
def Wins (m : Maze) (pace : Pace) (limit : Nat) (ops : List Op) (state : State) : Prop :=
  ∃ message, ((Session.new ops state).run (m.game pace) limit fun _ _ => false).ending? =
    some (.completed (.won message))

/-- A goal is connected to the start. -/
def Connected (m : Maze) : Prop := ∃ p, m.grid.Reaches m.grid.start p ∧ m.grid.get? p = some goal

variable {m : Maze} {pace : Pace}

theorem Applied.reaches {op : Op} {s after : State} {result : Except Fault Outcome}
    (applied : m.Applied op s result after) : m.grid.Reaches s.position after.position := by
  cases applied with
  | stays => exact .refl
  | passes _ clear => exact clear.reaches
  | arrives _ clear => exact clear.reaches
  | collides _ blocked => exact blocked.clear.reaches

theorem Applied.on_goal {op : Op} {s after : State} {message : String}
    (applied : m.Applied op s (.ok (.won message)) after) : m.grid.get? after.position = some goal := by
  cases applied with
  | stays _ _ quiet => cases quiet _ rfl
  | arrives _ _ there => exact there

open Session

theorem carried_reaches (ops : List Op) (s : State) :
    m.grid.Reaches s.position (carried (m.game pace) ops s).position := by
  have keeps (op : Op) (later : State) (reaches : m.grid.Reaches s.position later.position) :
      m.grid.Reaches s.position ((m.game pace).apply op later).state.position :=
    Relation.ReflTransGen.trans reaches (m.applied pace op later).reaches
  exact carried_keeps keeps ops .refl

theorem Wins.connected {limit : Nat} {ops : List Op} {state : State} (wins : m.Wins pace limit ops state) :
    m.Connected := by
  obtain ⟨message, won⟩ := wins
  obtain ⟨-, ending, ended, course⟩ := run_played (m.game pace) limit ops state rfl rfl
  obtain ⟨k, op, -, leaf, result⟩ := course.won (Option.some.inj (ended.symm.trans won))
  have applied := m.applied pace op (stateAfter (m.game pace) (Op.unrolls ops) m.initial k)
  refine ⟨(stateAfter (m.game pace) (Op.unrolls ops) m.initial (k + 1)).position,
    carried_reaches _ m.initial, ?_⟩
  rw [stateAfter_succ leaf]
  exact Applied.on_goal (result ▸ applied)

/-- What a move says that ends on a cell. -/
def greeting (m : Maze) (p : Position) : Outcome :=
  if m.grid.get? p = some goal then .won "reached the goal" else .ongoing

theorem apply_toward (m : Maze) (block : BlockId) (h : Heading) (s : State) :
    m.apply pace (.leaf block (s.facing.toward h)) s = ⟨.ok .ongoing, { s with facing := h }, pace.step⟩ := by
  simp only [Heading.toward, apply, s.facing.turn?_toward h]

theorem apply_nowhere (m : Maze) (block : BlockId) (s : State) :
    m.apply pace (.leaf block (.move 0)) s =
      ⟨.ok (m.greeting s.position), s.moveTo s.position, pace.step⟩ := rfl

theorem apply_ahead (block : BlockId) {s : State} (next : m.grid.Open (s.position.step s.facing true)) :
    m.apply pace (.leaf block (.move 1)) s =
      ⟨.ok (m.greeting (s.position.step s.facing true)), s.moveTo (s.position.step s.facing true),
        pace.step⟩ := by
  simp only [apply, move, Grid.walk_ahead next, greeting, State.moveTo]

theorem exists_route (pace : Pace) {p q : Position} (reaches : m.grid.Reaches p q) 
    (there : m.grid.get? q = some goal) :
    ∃ way, ∀ facing moves steps clock limit, steps + (route facing way).length ≤ limit →
      (fold (m.game pace) limit (fun _ _ => false) (route facing way) steps clock
        ⟨p, facing, moves⟩).ending = .completed (.won "reached the goal") := by
  -- The way grows at its front: what is left of it must win from any heading and at any time.
  induction reaches using Relation.ReflTransGen.head_induction_on with
  | refl =>
    refine ⟨[], fun facing moves steps clock limit enough => ?_⟩
    rw [route, List.length_singleton] at enough
    have arrived : (m.game pace).apply (.leaf ⟨"arrive"⟩ (.move 0)) ⟨q, facing, moves⟩ = _ :=
      m.apply_nowhere ⟨"arrive"⟩ _
    rw [route, fold, if_neg Bool.false_ne_true, if_neg (by omega), arrived]
    simp only [greeting, if_pos there, settled]
  | @head p _ leads _ ih =>
    obtain ⟨⟨h, rfl⟩, next⟩ := leads
    obtain ⟨way, wins⟩ := ih
    refine ⟨h :: way, fun facing moves steps clock limit enough => ?_⟩
    rw [route, List.length_cons, List.length_cons] at enough
    have turned : (m.game pace).apply (.leaf ⟨"turn"⟩ (facing.toward h)) ⟨p, facing, moves⟩ = _ :=
      m.apply_toward ⟨"turn"⟩ h _
    have gone : (m.game pace).apply (.leaf ⟨"go"⟩ (.move 1)) ⟨p, h, moves⟩ = _ :=
      apply_ahead ⟨"go"⟩ next
    rw [route, fold, if_neg Bool.false_ne_true, if_neg (by omega), turned]
    simp only [settled]
    rw [fold, if_neg Bool.false_ne_true, if_neg (by omega), gone]
    -- A run that comes across another goal is won there already.
    by_cases early : m.grid.get? (p.step h true) = some goal
    · simp only [greeting, if_pos early, settled]
    · simp only [greeting, if_neg early, settled]
      exact wins _ _ _ _ _ (by omega)

theorem Connected.wins (connected : m.Connected) :
    ∃ ops, ∀ limit state, (Op.unrolls ops).length ≤ limit → m.Wins pace limit ops state := by
  obtain ⟨p, reaches, there⟩ := connected
  obtain ⟨way, wins⟩ := exists_route pace reaches there
  refine ⟨route m.facing way, fun limit state enough => ⟨"reached the goal", ?_⟩⟩
  have meets : Meets ((Session.new (route m.facing way) state).run (m.game pace) limit fun _ _ => false) _ _ :=
    run_meets_start (route m.facing way) state
  have room : 0 + (route m.facing way).length ≤ limit := by
    rwa [Nat.zero_add, ← unrolls_route]
  have won := wins m.facing 0 0 0 limit room
  rw [← unrolls_route] at won
  exact meets.1.trans (congrArg some won)

end Maze

end BlockPlay

import BlockPlay.Run.Session
import BlockPlay.Proofs.Program.Walk

/-!
Runs without stages and cursors. The leaves of the unrolled program are played one after the other, and
before each of them a run is stopped, is over, or has used up its steps, in this order. A session comes
to the same end.
-/
namespace BlockPlay

def Deed.op? : Deed → Option Op
  | .applied op => some op
  | _ => none

namespace Session

variable {σ : Type}

/-- The instructions that the game has been given, from the first to the last. -/
def applied (s : Session σ) : List Op := (s.deeds.filterMap Deed.op?).reverse

/-- How a run ends, after how many steps, and with which state of the game. -/
structure Upshot (σ : Type) where
  ending : Ending
  steps : Nat
  state : σ

/-- The end that the answer to an instruction brings, if it brings one. -/
def settled (block : BlockId) : Except Fault Outcome → Option Ending
  | .ok .ongoing => none
  | .ok (.won m) => some (.completed (.won m))
  | .ok (.lost m) => some (.completed (.lost m))
  | .error (.refused m) => some (.failed (.step block m))
  | .error (.crashed m) => some (.failed (.crashedAt block m))

/-- Plays the leaves that are left after so many steps, at a time. -/
def fold (game : Game σ) (limit : Nat) (stop : Nat → Nat → Bool) :
    List Op → Nat → Nat → σ → Upshot σ
  | [], steps, clock, state =>
    if stop steps clock then ⟨.cancelled, steps, state⟩ else ⟨.completed .finished, steps, state⟩
  | op :: leaves, steps, clock, state =>
    if stop steps clock then ⟨.cancelled, steps, state⟩
    else if limit ≤ steps then ⟨.failed (.stepLimit limit), steps, state⟩
    else
      match settled op.block (game.apply op state).result with
      | some ending => ⟨ending, steps + 1, (game.apply op state).state⟩
      | none =>
        fold game limit stop leaves (steps + 1) (clock + (game.apply op state).millis)
          (game.apply op state).state

def unready : Fault → RunError
  | .refused m => .reset m
  | .crashed m => .crashedInReset m

/-- Resets the game and then plays the unrolled program. -/
def reference (game : Game σ) (limit : Nat) (stop : Nat → Nat → Bool) (ops : List Op) (state : σ) :
    Upshot σ :=
  match (game.reset state).result with
  | .ok () =>
    fold game limit stop (Op.unrolls ops) 0 (game.reset state).millis (game.reset state).state
  | .error fault => ⟨.failed (unready fault), 0, (game.reset state).state⟩

/-- The session is at its end, as foreseen, and has given the game these instructions. -/
def Meets (s : Session σ) (upshot : Upshot σ) (ops : List Op) : Prop :=
  s.ending? = some upshot.ending ∧ s.steps = upshot.steps ∧ s.game = upshot.state ∧ s.applied = ops

theorem applied_of_deeds (s : Session σ) {later : Session σ} (op : Op)
    (deeds : later.deeds = .applied op :: .given op :: .told (.step op.block) :: .looked :: s.deeds) :
    later.applied = s.applied ++ [op] := by
  simp [applied, deeds, List.filterMap_cons, Deed.op?]

variable {game : Game σ} {limit : Nat} {stop : Nat → Nat → Bool}

theorem run_step {s : Session σ} (going : s.ending? = none) :
    s.run game limit stop = (s.step game limit (stop s.steps s.clock)).run game limit stop := by
  rw [run, if_pos going]

theorem run_ended {s : Session σ} {ending : Ending} (done : s.ending? = some ending) :
    s.run game limit stop = s := by
  have going : ¬ s.ending? = none := by simp [done]
  rw [run, if_neg going]

theorem meets_finish (s : Session σ) (ending : Ending) {ops : List Op} (given : s.applied = ops) :
    Meets ((s.finish ending).run game limit stop) ⟨ending, s.steps, s.game⟩ ops := by
  rw [run_step rfl, run_ended rfl]
  exact ⟨rfl, rfl, rfl, given⟩

theorem fetch_of_nil (limit : Nat) {s : Session σ} (owed : Cursor.pending s.cursor.frames = []) :
    ∃ cursor, s.fetch limit = { s with cursor := cursor }.finish (.completed .finished) := by
  have last : s.cursor.next.1 = none := by
    rw [Cursor.next, (Cursor.pending_advance s.cursor.frames).1, owed]
    rfl
  refine ⟨s.cursor.next.2, ?_⟩
  rw [fetch]
  split
  next cursor found => rw [found]
  next op cursor found => simp [found] at last

theorem fetch_of_cons (limit : Nat) {s : Session σ} {op : Op} {leaves : List Op}
    (owed : Cursor.pending s.cursor.frames = op :: leaves) :
    ∃ cursor, Cursor.pending cursor.frames = leaves ∧ s.fetch limit =
      if s.steps < limit then
        { s with stage := .announce op, cursor := cursor, steps := s.steps + 1 }
      else { s with cursor := cursor }.finish (.failed (.stepLimit limit)) := by
  have first : s.cursor.next.1 = some op := by
    rw [Cursor.next, (Cursor.pending_advance s.cursor.frames).1, owed]
    rfl
  have later : Cursor.pending s.cursor.next.2.frames = leaves := by
    rw [Cursor.next, (Cursor.pending_advance s.cursor.frames).2, owed]
    rfl
  refine ⟨s.cursor.next.2, later, ?_⟩
  rw [fetch]
  split
  next cursor found => simp [found] at first
  next next cursor found =>
    rw [found] at first ⊢
    cases first
    rfl

theorem conclude_eq (s : Session σ) (op : Op) (result : Except Fault Outcome) :
    s.conclude op result = match settled op.block result with
      | some ending => s.finish ending
      | none => { s with stage := .check } := by
  rcases result with (_ | _) | (_ | _ | _) <;> rfl

theorem run_announce (s : Session σ) {op : Op} (stage : s.stage = .announce op) :
    s.run game limit stop =
      ((((s.tell (.step op.block) (.apply op)).record (.given op)).called (.applied op)
        (game.apply op s.game)).conclude op (game.apply op s.game).result).run game limit stop := by
  rw [run_step (by simp [ending?, stage])]
  simp only [step, stage]
  rw [run_step rfl]
  rfl

theorem concludeReset_error (s : Session σ) (fault : Fault) :
    s.concludeReset (.error fault) = s.finish (.failed (unready fault)) := by
  cases fault <;> rfl

/-- Before a leaf a session goes on as the fold over the leaves that its cursor still owes. -/
theorem run_meets_fold (game : Game σ) (limit : Nat) (stop : Nat → Nat → Bool) (leaves : List Op)
    {s : Session σ} (stage : s.stage = .check)
    (owed : Cursor.pending s.cursor.frames = leaves) :
    ∃ more, (fold game limit stop leaves s.steps s.clock s.game).steps = s.steps + more ∧
      Meets (s.run game limit stop) (fold game limit stop leaves s.steps s.clock s.game)
        (s.applied ++ leaves.take more) := by
  -- The cursor is another one after each leaf; what carries over is the list of leaves that it owes.
  induction leaves generalizing s with
  | nil =>
    refine ⟨0, ?_⟩
    rw [run_step (by simp [ending?, stage]), fold]
    simp only [step, stage, List.take_nil, List.append_nil]
    split
    next stopped => exact ⟨rfl, meets_finish (s.record .looked) .cancelled rfl⟩
    next =>
      obtain ⟨cursor, fetched⟩ := fetch_of_nil limit (s := s.record .looked) owed
      rw [fetched]
      exact ⟨rfl, meets_finish { s.record .looked with cursor := cursor } (.completed .finished) rfl⟩
  | cons op leaves ih =>
    rw [run_step (by simp [ending?, stage]), fold]
    simp only [step, stage]
    have nothing : (s.record .looked).applied = s.applied ++ (op :: leaves).take 0 := by
      rw [List.take_zero, List.append_nil]
      rfl
    split
    next stopped => exact ⟨0, rfl, meets_finish (s.record .looked) .cancelled nothing⟩
    next =>
      obtain ⟨cursor, later, fetched⟩ := fetch_of_cons limit (s := s.record .looked) owed
      rw [fetched, steps_record]
      by_cases spent : limit ≤ s.steps
      · rw [if_neg (Nat.not_lt.mpr spent), if_pos spent]
        exact ⟨0, rfl,
          meets_finish { s.record .looked with cursor := cursor } (.failed (.stepLimit limit)) nothing⟩
      · rw [if_pos (Nat.lt_of_not_le spent), if_neg spent, run_announce _ rfl, conclude_eq]
        dsimp only [record]
        cases settled op.block (game.apply op s.game).result with
        | some ending => exact ⟨1, rfl, meets_finish _ ending (applied_of_deeds s op rfl)⟩
        | none =>
          obtain ⟨more, steps, meets⟩ := ih (s := {
            stage := .check
            cursor := cursor
            game := (game.apply op s.game).state
            steps := s.steps + 1
            clock := s.clock + (game.apply op s.game).millis
            deeds := .applied op :: .given op :: .told (.step op.block) :: .looked :: s.deeds }) rfl later
          rw [applied_of_deeds s op rfl, List.append_assoc] at meets
          refine ⟨more + 1, ?_, meets⟩
          rw [steps, Nat.add_assoc, Nat.add_comm 1]

theorem run_meets_start (ops : List Op) (state : σ) :
    Meets ((new ops state).run game limit stop) (reference game limit stop ops state)
      ((Op.unrolls ops).take (reference game limit stop ops state).steps) := by
  rw [run_step rfl, run_step rfl]
  simp only [step, new, enter, tell, called, record, reference, Nat.zero_add]
  cases found : (game.reset state).result with
  | error fault =>
    rw [concludeReset_error]
    exact meets_finish _ (.failed (unready fault)) rfl
  | ok =>
    obtain ⟨more, steps, meets⟩ := run_meets_fold game limit stop (Op.unrolls ops) (s := {
        stage := .check
        cursor := Cursor.start ops
        game := (game.reset state).state
        steps := 0
        clock := (game.reset state).millis
        deeds := [.reset, .told (.status .running), .entered .running] }) rfl (Cursor.pending_start ops)
    rw [Nat.zero_add] at steps
    rw [← steps] at meets
    exact meets

theorem settled_ne_stepLimit (block : BlockId) (result : Except Fault Outcome) (m : Nat) :
    settled block result ≠ some (.failed (.stepLimit m)) := by
  rcases result with (_ | _) | (_ | _ | _) <;> simp [settled]

theorem fold_bounds (game : Game σ) (stop : Nat → Nat → Bool) (leaves : List Op) {steps : Nat}
    (clock : Nat) (state : σ) (within : steps ≤ limit) :
    (fold game limit stop leaves steps clock state).steps ≤ limit ∧
    (fold game limit stop leaves steps clock state).steps ≤ steps + leaves.length ∧
    ∀ m, (fold game limit stop leaves steps clock state).ending = .failed (.stepLimit m) →
      m = limit ∧ (fold game limit stop leaves steps clock state).steps = limit ∧
        limit < steps + leaves.length := by
  induction leaves generalizing steps clock state with
  | nil =>
    rw [fold]
    split
    next stopped => exact ⟨within, Nat.le_add_right _ _, nofun⟩
    next => exact ⟨within, Nat.le_add_right _ _, nofun⟩
  | cons op leaves ih =>
    have shift : steps + (op :: leaves).length = steps + 1 + leaves.length :=
      Nat.add_right_comm steps leaves.length 1
    have before : steps ≤ steps + 1 + leaves.length := by omega
    rw [fold, shift]
    split
    next stopped => exact ⟨within, before, nofun⟩
    next =>
      split
      next spent =>
        have all : steps = limit := Nat.le_antisymm within spent
        refine ⟨within, before, ?_⟩
        rintro m ended
        cases ended
        exact ⟨rfl, all, by omega⟩
      next room =>
        have another : steps + 1 ≤ limit := Nat.lt_of_not_le room
        cases decided : settled op.block (game.apply op state).result with
        | some ending =>
          refine ⟨another, Nat.le_add_right _ _, ?_⟩
          rintro m rfl
          exact absurd decided (settled_ne_stepLimit _ _ m)
        | none => exact ih _ _ another

/-- Nobody asks for a stop, and the game never objects nor ends the level. -/
structure Quiet (game : Game σ) (stop : Nat → Nat → Bool) : Prop where
  unasked : ∀ steps clock, stop steps clock = false
  reset : ∀ state, (game.reset state).result = .ok ()
  ongoing : ∀ op state, (game.apply op state).result = .ok .ongoing

theorem fold_of_quiet (quiet : Quiet game stop) (leaves : List Op) {steps : Nat} (clock : Nat) (state : σ)
    (within : steps ≤ limit) :
    (steps + leaves.length ≤ limit →
      (fold game limit stop leaves steps clock state).ending = .completed .finished ∧
      (fold game limit stop leaves steps clock state).steps = steps + leaves.length) ∧
    (limit < steps + leaves.length →
      (fold game limit stop leaves steps clock state).ending = .failed (.stepLimit limit) ∧
      (fold game limit stop leaves steps clock state).steps = limit) := by
  induction leaves generalizing steps clock state with
  | nil =>
    rw [fold, quiet.unasked, if_neg Bool.false_ne_true]
    refine ⟨fun _ => ⟨rfl, rfl⟩, fun beyond => ?_⟩
    exact absurd beyond (Nat.not_lt.mpr within)
  | cons op leaves ih =>
    rw [fold, quiet.unasked, if_neg Bool.false_ne_true, quiet.ongoing]
    have shift : steps + (op :: leaves).length = steps + 1 + leaves.length :=
      Nat.add_right_comm steps leaves.length 1
    rw [shift]
    split
    next spent =>
      refine ⟨fun enough => ?_, fun _ => ⟨rfl, Nat.le_antisymm within spent⟩⟩
      omega
    next room => exact ih _ _ (Nat.lt_of_not_le room)

/-- A run does what the reference does. Its game is given as many leaves of the unrolled program as steps
are started, which are never more than allowed; a run that uses them up has leaves left. Nothing else
stands in the way of a quiet run. -/
theorem run_meets_reference (game : Game σ) (limit : Nat) (stop : Nat → Nat → Bool) (ops : List Op)
    (state : σ) :
    let upshot := reference game limit stop ops state
    Meets ((new ops state).run game limit stop) upshot ((Op.unrolls ops).take upshot.steps) ∧
    upshot.steps ≤ limit ∧ upshot.steps ≤ (Op.unrolls ops).length ∧
    (∀ m, upshot.ending = .failed (.stepLimit m) →
      m = limit ∧ upshot.steps = limit ∧ limit < (Op.unrolls ops).length) ∧
    (Quiet game stop → (Op.unrolls ops).length ≤ limit →
      upshot.ending = .completed .finished ∧ upshot.steps = (Op.unrolls ops).length) ∧
    (Quiet game stop → limit < (Op.unrolls ops).length →
      upshot.ending = .failed (.stepLimit limit) ∧ upshot.steps = limit) := by
  intro upshot
  refine ⟨run_meets_start ops state, ?_⟩
  cases found : (game.reset state).result with
  | error fault =>
    have failed : upshot = ⟨.failed (unready fault), 0, (game.reset state).state⟩ := by
      simp only [upshot, reference, found]
    have unquiet : ¬ Quiet game stop := by
      intro quiet
      have ready := quiet.reset state
      rw [found] at ready
      contradiction
    rw [failed]
    refine ⟨Nat.zero_le _, Nat.zero_le _, ?_, fun quiet => absurd quiet unquiet,
      fun quiet => absurd quiet unquiet⟩
    intro m ended
    cases fault <;> cases ended
  | ok =>
    have played : upshot = fold game limit stop (Op.unrolls ops) 0 (game.reset state).millis
        (game.reset state).state := by
      simp only [upshot, reference, found]
    rw [played, ← Nat.zero_add (Op.unrolls ops).length]
    obtain ⟨few, present, spent⟩ := fold_bounds game stop (Op.unrolls ops)
      (game.reset state).millis (game.reset state).state (Nat.zero_le limit)
    refine ⟨few, present, spent, ?_, ?_⟩
    · intro quiet
      exact (fold_of_quiet quiet _ _ _ (Nat.zero_le limit)).1
    · intro quiet
      exact (fold_of_quiet quiet _ _ _ (Nat.zero_le limit)).2

def counter : Game Nat := ⟨fun _ => ⟨.ok (), 0, 1⟩, fun _ count => ⟨.ok .ongoing, count + 1, 1⟩⟩

def twice : List Op := [.loop ⟨"again"⟩ 2 [.leaf ⟨"pick"⟩ .collect]]

theorem run_meets_reference_twice :
    Quiet counter (fun _ _ => false) ∧ (Op.unrolls twice).length = 2 ∧
    (reference counter 2 (fun _ _ => false) twice 7).ending = .completed .finished ∧
    (reference counter 1 (fun _ _ => false) twice 7).ending = .failed (.stepLimit 1) ∧
    ∃ upshot, Meets ((new twice 7).run counter 1 fun _ _ => false) upshot [.leaf ⟨"pick"⟩ .collect] := by
  have quiet : Quiet counter (fun _ _ => false) := ⟨fun _ _ => rfl, fun _ => rfl, fun _ _ => rfl⟩
  have two : (Op.unrolls twice).length = 2 := rfl
  obtain ⟨-, -, -, -, enough, -⟩ := run_meets_reference counter 2 (fun _ _ => false) twice 7
  obtain ⟨meets, -, -, spent, -, short⟩ := run_meets_reference counter 1 (fun _ _ => false) twice 7
  have limited := short quiet (by rw [two]; decide)
  have one := (spent 1 limited.1).2.1
  refine ⟨quiet, two, (enough quiet (Nat.le_of_eq two)).1, limited.1, ?_⟩
  rw [one] at meets
  exact ⟨_, meets⟩

end Session

end BlockPlay

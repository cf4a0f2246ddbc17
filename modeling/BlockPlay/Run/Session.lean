import BlockPlay.Program.Cursor
import BlockPlay.Run.Event
import BlockPlay.Run.Game

/-!
Runs of a program on a game. A session goes from stage to stage; a stage is the next thing that
happens, and nothing else comes between its parts. Before each instruction the session looks whether
it has been asked to stop, and `Session.run` ends because each instruction uses up one of the steps
that are allowed.
-/
namespace BlockPlay

inductive Stage where
  | start
  | reset
  | check
  | announce (op : Op)
  | apply (op : Op)
  | report (ending : Ending)
  | ended (ending : Ending)
  deriving Repr

/-- What has been done: a status was entered, the observer was told of an event, the run looked whether it
has been asked to stop, or the game was called. An instruction that is given to the game takes its time before
it has been carried out. -/
inductive Deed where
  | entered (status : Status)
  | told (event : Event)
  | looked
  | reset
  | given (op : Op)
  | applied (op : Op)
  deriving Repr

namespace Deed

def event? : Deed → Option Event
  | told event => some event
  | _ => none

def status? : Deed → Option Status
  | entered status => some status
  | _ => none

end Deed

/-- A run with the game that it plays on. The latest deed stands first. -/
structure Session (σ : Type) where
  stage : Stage
  cursor : Cursor
  game : σ
  steps : Nat
  clock : Nat
  deeds : List Deed

namespace Session

variable {σ : Type}

def new (ops : List Op) (game : σ) : Session σ := ⟨.start, Cursor.start ops, game, 0, 0, []⟩

def status (s : Session σ) : Status :=
  match s.stage with
  | .start => .idle
  | .report ending | .ended ending => ending.status
  | _ => .running

def ending? (s : Session σ) : Option Ending :=
  match s.stage with
  | .ended ending => some ending
  | _ => none

def events (s : Session σ) : List Event :=
  s.deeds.foldl (fun later deed => match deed with | .told e => e :: later | _ => later) []

/-- All that has been done, from the first to the last. -/
def past (s : Session σ) : List Deed := s.deeds.reverse

def record (s : Session σ) (deed : Deed) : Session σ := { s with deeds := deed :: s.deeds }

/-- Goes to a stage after telling the observer something. -/
def tell (s : Session σ) (event : Event) (stage : Stage) : Session σ :=
  { s.record (.told event) with stage := stage }

/-- Enters a status, tells the observer of it, and goes to a stage. -/
def enter (s : Session σ) (status : Status) (stage : Stage) : Session σ :=
  (s.record (.entered status)).tell (.status status) stage

def finish (s : Session σ) (ending : Ending) : Session σ := s.enter ending.status (.report ending)

def called {α : Type} (s : Session σ) (deed : Deed) (answer : Answer σ α) : Session σ :=
  { s.record deed with game := answer.state, clock := s.clock + answer.millis }

@[simp] theorem steps_record (s : Session σ) (deed : Deed) : (s.record deed).steps = s.steps := rfl

@[simp] theorem past_record (s : Session σ) (deed : Deed) : (s.record deed).past = s.past ++ [deed] :=
  List.reverse_cons

@[simp] theorem past_tell (s : Session σ) (event : Event) (stage : Stage) :
    (s.tell event stage).past = s.past ++ [.told event] := past_record s _

@[simp] theorem past_enter (s : Session σ) (status : Status) (stage : Stage) :
    (s.enter status stage).past = s.past ++ [.entered status, .told (.status status)] := by
  rw [enter, past_tell, past_record, List.append_assoc]
  rfl

@[simp] theorem past_called {α : Type} (s : Session σ) (deed : Deed) (answer : Answer σ α) :
    (s.called deed answer).past = s.past ++ [deed] := past_record s deed

/-- Goes on to the next instruction, unless there is none or too many have been started. -/
def fetch (limit : Nat) (s : Session σ) : Session σ :=
  match s.cursor.next with
  | (none, cursor) => { s with cursor := cursor }.finish (.completed .finished)
  | (some op, cursor) =>
    if s.steps < limit then
      { s with stage := .announce op, cursor := cursor, steps := s.steps + 1 }
    else { s with cursor := cursor }.finish (.failed (.stepLimit limit))

def conclude (s : Session σ) (op : Op) : Except Fault Outcome → Session σ
  | .ok .ongoing => { s with stage := .check }
  | .ok (.won m) => s.finish (.completed (.won m))
  | .ok (.lost m) => s.finish (.completed (.lost m))
  | .error (.refused m) => s.finish (.failed (.step op.block m))
  | .error (.crashed m) => s.finish (.failed (.crashedAt op.block m))

def concludeReset (s : Session σ) : Except Fault Unit → Session σ
  | .ok () => { s with stage := .check }
  | .error (.refused m) => s.finish (.failed (.reset m))
  | .error (.crashed m) => s.finish (.failed (.crashedInReset m))

/-- One stage; `stop` is what a look at the request to stop shows. -/
def step (game : Game σ) (limit : Nat) (stop : Bool) (s : Session σ) : Session σ :=
  match s.stage with
  | .start => s.enter .running .reset
  | .reset =>
    let answer := game.reset s.game
    (s.called .reset answer).concludeReset answer.result
  | .check =>
    let looked := s.record .looked
    if stop then looked.finish .cancelled else looked.fetch limit
  | .announce op => s.tell (.step op.block) (.apply op)
  | .apply op =>
    let answer := game.apply op s.game
    ((s.record (.given op)).called (.applied op) answer).conclude op answer.result
  | .report ending => s.tell (Event.last ending) (.ended ending)
  | .ended _ => s

/-- The stages that a session can still go through. -/
def work (limit : Nat) (s : Session σ) : Nat :=
  let left := 3 * (limit - s.steps)
  match s.stage with
  | .start | .announce _ => left + 4
  | .reset | .apply _ => left + 3
  | .check => left + 2
  | .report _ => 1
  | .ended _ => 0

theorem work_step_lt {game : Game σ} {limit : Nat} {stop : Bool} {s : Session σ}
    (going : s.ending? = none) : (s.step game limit stop).work limit < s.work limit := by
  obtain ⟨stage, cursor, state, steps, clock, deeds⟩ := s
  cases stage with
  | ended ending => simp [ending?] at going
  | start => simp [step, work, enter, tell, record]
  | announce op => simp [step, work, tell, record]
  | report ending => simp [step, work, tell, record]
  | reset =>
    simp only [step, called, concludeReset]
    split <;> simp [work, finish, enter, tell, record]
  | apply op =>
    simp only [step, called, conclude]
    split <;> simp [work, finish, enter, tell, record]
  | check =>
    simp only [step, fetch]
    split
    · simp [work, finish, enter, tell, record]
    · split
      · simp [work, finish, enter, tell, record]
      · split
        · simp only [work, steps_record] at *
          omega
        · simp [work, finish, enter, tell, record]

/-- Goes on to the end. A look at the request to stop depends on the number of steps started and on
the time. -/
def run (game : Game σ) (limit : Nat) (stop : Nat → Nat → Bool) (s : Session σ) : Session σ :=
  if s.ending? = none then
    run game limit stop (s.step game limit (stop s.steps s.clock))
  else s
termination_by s.work limit
decreasing_by exact work_step_lt (by assumption)

theorem ending?_run (game : Game σ) (limit : Nat) (stop : Nat → Nat → Bool) (s : Session σ) :
    (s.run game limit stop).ending?.isSome := by
  fun_induction run game limit stop s with
  | case1 s going ih => exact ih
  | case2 s done => exact Option.isSome_iff_ne_none.mpr done

end Session

end BlockPlay

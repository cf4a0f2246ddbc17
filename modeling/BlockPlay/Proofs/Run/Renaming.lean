import BlockPlay.Canvas.Drawing
import BlockPlay.Grid.Farm
import BlockPlay.Grid.Maze
import BlockPlay.Proofs.Compile.Renaming
import BlockPlay.Proofs.Run.Story

/-!
Names of blocks are labels. Compilers, validators, runs and games hand them on and do not look at them, so
that new names change nothing but the names in what comes out, even where two blocks come to share one.
-/
namespace BlockPlay

def RunError.rename (f : BlockId → BlockId) : RunError → RunError
  | step block m => step (f block) m
  | reset m => reset m
  | stepLimit limit => stepLimit limit
  | crashedInReset m => crashedInReset m
  | crashedAt block m => crashedAt (f block) m

def Ending.rename (f : BlockId → BlockId) : Ending → Ending
  | completed c => completed c
  | failed e => failed (e.rename f)
  | cancelled => cancelled

def Event.rename (f : BlockId → BlockId) : Event → Event
  | step block => step (f block)
  | status s => status s
  | done c => done c
  | error e => error (e.rename f)
  | cancelled => cancelled

def Stage.rename (f : BlockId → BlockId) : Stage → Stage
  | start => start
  | reset => reset
  | check => check
  | announce op => announce (op.rename f)
  | apply op => apply (op.rename f)
  | report ending => report (ending.rename f)
  | ended ending => ended (ending.rename f)

def Deed.rename (f : BlockId → BlockId) : Deed → Deed
  | entered status => entered status
  | told event => told (event.rename f)
  | looked => looked
  | reset => reset
  | given op => given (op.rename f)
  | applied op => applied (op.rename f)

/-- The game does the same under all names. -/
def Game.Nameless {σ : Type} (game : Game σ) : Prop :=
  ∀ (f : BlockId → BlockId) op state, game.apply (op.rename f) state = game.apply op state

namespace Session

variable {σ : Type} (f : BlockId → BlockId)

def rename (s : Session σ) : Session σ :=
  { s with
    stage := s.stage.rename f
    cursor := s.cursor.rename f
    deeds := s.deeds.map (Deed.rename f) }

theorem last_rename (ending : Ending) : Event.last (ending.rename f) = (Event.last ending).rename f := by
  cases ending <;> rfl

theorem fetch_rename (limit : Nat) (s : Session σ) :
    (s.rename f).fetch limit = (s.fetch limit).rename f := by
  have renamed : (s.rename f).cursor.next = _ := Cursor.next_rename f s.cursor
  rw [fetch, fetch, renamed]
  rcases s.cursor.next with ⟨_ | op, cursor⟩
  · rfl
  · have sameSteps : (s.rename f).steps = s.steps := rfl
    simp only [Option.map_some, sameSteps]
    split <;> rfl

theorem conclude_rename (s : Session σ) (op : Op) (result : Except Fault Outcome) :
    (s.rename f).conclude (op.rename f) result = (s.conclude op result).rename f := by
  rcases result with (_ | _) | (_ | _ | _) <;> simp only [conclude, Op.block_rename] <;> rfl

theorem concludeReset_rename (s : Session σ) (result : Except Fault Unit) :
    (s.rename f).concludeReset result = (s.concludeReset result).rename f := by
  rcases result with (_ | _) | _ <;> rfl

variable {game : Game σ} {limit : Nat}

theorem step_rename (nameless : game.Nameless) (stop : Bool) (s : Session σ) :
    (s.rename f).step game limit stop = (s.step game limit stop).rename f := by
  obtain ⟨stage, cursor, state, steps, clock, deeds⟩ := s
  cases stage with
  | start => rfl
  | reset =>
    let called := Session.called ⟨.reset, cursor, state, steps, clock, deeds⟩ .reset (game.reset state)
    exact concludeReset_rename f called (game.reset state).result
  | check =>
    cases stop with
    | true => rfl
    | false => exact fetch_rename f limit (Session.record ⟨.check, cursor, state, steps, clock, deeds⟩ .looked)
  | announce op =>
    simp only [step, rename, Stage.rename, tell, record, Op.block_rename]
    rfl
  | apply op =>
    let given := Session.record ⟨.apply op, cursor, state, steps, clock, deeds⟩ (.given op)
    let called := given.called (.applied op) (game.apply op state)
    have same := nameless f op state
    simp only [step, rename, Stage.rename, same]
    exact conclude_rename f called op (game.apply op state).result
  | report ending =>
    simp only [step, rename, Stage.rename, last_rename]
    rfl
  | ended ending => rfl

theorem ending?_rename (s : Session σ) : (s.rename f).ending? = s.ending?.map (Ending.rename f) := by
  obtain ⟨stage, cursor, state, steps, clock, deeds⟩ := s
  cases stage <;> rfl

theorem run_rename (nameless : game.Nameless) (stop : Nat → Nat → Bool) (s : Session σ) :
    (s.rename f).run game limit stop = (s.run game limit stop).rename f := by
  fun_induction run game limit stop s with
  | case1 s going ih =>
    have still : (s.rename f).ending? = none := by rw [ending?_rename, going, Option.map_none]
    rw [run, if_pos still, step_rename f nameless]
    exact ih
  | case2 s done =>
    have ended : ¬ (s.rename f).ending? = none := by
      rwa [ending?_rename, Option.map_eq_none_iff]
    rw [run, if_neg ended]

theorem event?_rename (deed : Deed) : (deed.rename f).event? = deed.event?.map (Event.rename f) := by
  cases deed <;> rfl

theorem events_rename (s : Session σ) : (s.rename f).events = s.events.map (Event.rename f) := by
  rw [events_eq, events_eq, List.map_reverse, List.map_filterMap]
  simp only [rename, List.filterMap_map, Function.comp_def, event?_rename]

/-- The second session has gone as the first one, and tells of it under other names. -/
structure Echoes (s t : Session σ) : Prop where
  steps : t.steps = s.steps
  clock : t.clock = s.clock
  game : t.game = s.game
  ending : ∃ ending, s.ending? = some ending ∧ t.ending? = some (ending.rename f)
  events : t.events = s.events.map (Event.rename f)

theorem echoes_rename (nameless : game.Nameless) (limit : Nat) (stop : Nat → Nat → Bool) (p : Program)
    (state : σ) :
    Echoes f ((new p.ops state).run game limit stop) ((new (p.rename f).ops state).run game limit stop) := by
  have first : new (p.rename f).ops state = (new p.ops state).rename f := rfl
  obtain ⟨ending, ended⟩ := Option.isSome_iff_exists.mp (ending?_run game limit stop (new p.ops state))
  rw [first, run_rename f nameless]
  refine ⟨rfl, rfl, rfl, ⟨ending, ended, ?_⟩, events_rename f _⟩
  rw [ending?_rename, ended, Option.map_some]

end Session

theorem Maze.nameless (m : Maze) (pace : Pace) : (m.game pace).Nameless := by
  intro f op state
  cases op with
  | leaf block action => cases action <;> rfl
  | loop block count body => rfl

theorem Farm.nameless (m : Farm) (pace : Pace) : (m.game pace).Nameless := by
  intro f op state
  cases op with
  | leaf block action => cases action <;> rfl
  | loop block count body => rfl

theorem Canvas.nameless (c : Canvas) (pace : Pace) : (c.game pace).Nameless := by
  intro f op state
  cases op with
  | leaf block action => cases action <;> rfl
  | loop block count body => rfl

/-- Other names for the blocks, also such that several blocks share one, lead to the same program or error
with other names, to the same verdict on a program, and to the same run of it in each of the games: with as
many steps, the same game in the end, and the same ending and events but for the names. -/
theorem names_are_labels (f : BlockId → BlockId) :
    (∀ {Node : Type} (compiler : Compiler) (g : BlockGraph Node),
      compiler.compile (g.rename f) =
        (((compiler.compile g).1.map (Program.rename f)).mapError (CompileError.rename f),
          (compiler.compile g).2)) ∧
    (∀ (limits : Limits) (p : Program),
      limits.validate (p.rename f) = (limits.validate p).mapError (ValidationError.rename f)) ∧
    ∀ (p : Program) (pace : Pace) (limit : Nat) (stop : Nat → Nat → Bool),
      (∀ (m : Maze) (state : Maze.State), Session.Echoes f
        ((Session.new p.ops state).run (m.game pace) limit stop)
        ((Session.new (p.rename f).ops state).run (m.game pace) limit stop)) ∧
      (∀ (m : Farm) (state : Farm.State), Session.Echoes f
        ((Session.new p.ops state).run (m.game pace) limit stop)
        ((Session.new (p.rename f).ops state).run (m.game pace) limit stop)) ∧
      ∀ (c : Canvas) (state : Drawing), Session.Echoes f
        ((Session.new p.ops state).run (c.game pace) limit stop)
        ((Session.new (p.rename f).ops state).run (c.game pace) limit stop) := by
  refine ⟨Compiler.compile_rename f, Limits.validate_rename f, fun p pace limit stop => ⟨?_, ?_, ?_⟩⟩
  · exact fun m state => Session.echoes_rename f (m.nameless pace) limit stop p state
  · exact fun m state => Session.echoes_rename f (m.nameless pace) limit stop p state
  · exact fun c state => Session.echoes_rename f (c.nameless pace) limit stop p state

end BlockPlay

import BlockPlay.Proofs.Command.Printing
import BlockPlay.Proofs.Run.Course
import BlockPlay.Proofs.Run.Story

/-!
The stages of the command `run`: the workspace, its configuration, the compilation, the checks on the program,
and the level. The game is given instructions only when all of them have passed, and otherwise the first one
that fails is the answer.
-/
namespace BlockPlay

namespace Session

variable {σ : Type}

/-- The steps that a run has told of are the instructions that the game was given. -/
theorem steps_run (game : Game σ) (limit : Nat) (stop : Nat → Nat → Bool) (ops : List Op) (state : σ) :
    ((new ops state).run game limit stop).events.filterMap Event.step? =
      ((Op.unrolls ops).take ((new ops state).run game limit stop).steps).map Op.block := by
  have account : Account (Op.unrolls ops) ((new ops state).run game limit stop) :=
    (Account.new ops state).run game limit stop
  obtain ⟨ending, finished⟩ := Option.isSome_iff_exists.mp (ending?_run game limit stop (new ops state))
  rw [events_past, (account.of_ended finished).1, filterMap_story]
  have last : [Event.status ending.status, Event.last ending].filterMap Event.step? = [] := by
    cases ending <;> rfl
  have steps (leaves : List Op) :
      (leaves.map fun op => Event.step op.block).filterMap Event.step? = leaves.map Op.block := by
    simp [List.filterMap_map, Function.comp_def, Event.step?]
  rw [List.filterMap_append, last, List.append_nil]
  exact steps _

end Session

/-- A game on a level that has been loaded, with the state that it is in before it is reset. -/
structure Setting where
  State : Type
  game : Game State
  blank : State
  describe : State → String
  ready : (game.reset blank).result = .ok ()

namespace Setting

/-- The run of a program at its end. -/
def last (s : Setting) (stop : StopRequest) (limit : Nat) (program : Program) : Session s.State :=
  (Session.new program.ops s.blank).run s.game limit stop.made

def summary (s : Setting) (stop : StopRequest) (limit : Nat) (program : Program) :
    Except CommandError Summary :=
  Command.play s.game limit stop program s.blank s.describe

/-- The state in which so many leaves leave the game. -/
def after (s : Setting) (leaves : List Op) (k : Nat) : s.State :=
  Session.stateAfter s.game leaves (s.game.reset s.blank).state k

/-- The leaf with which a run ends, after so many leaves, is answered with this word. -/
def EndsWith (s : Setting) (leaves : List Op) (count : Nat) (word : Outcome) : Prop :=
  ∃ k op, count = k + 1 ∧ leaves[k]? = some op ∧ (s.game.apply op (s.after leaves k)).result = .ok word

/-- A summary of a run of these leaves in which the game was given some of them. -/
structure Tells (s : Setting) (leaves given : List Op) (summary : Summary) : Prop where
  unfailed : ∀ error, summary.ending ≠ .failed error
  steps : summary.steps = given.map Op.block
  finished : summary.ending = .completed .finished → given = leaves
  won : ∀ message, summary.ending = .completed (.won message) →
    s.EndsWith leaves given.length (.won message)
  lost : ∀ message, summary.ending = .completed (.lost message) →
    s.EndsWith leaves given.length (.lost message)
  state : summary.state = s.describe (s.after leaves given.length)

variable (s : Setting) (stop : StopRequest) (limit : Nat) (program : Program)

theorem summary_eq {ending : Ending} (ended : (s.last stop limit program).ending? = some ending) :
    s.summary stop limit program = match ending with
      | .failed e => .error (.run e)
      | ending => .ok ⟨(s.last stop limit program).events.filterMap Event.step?, ending,
        s.describe (s.last stop limit program).game⟩ := by
  have same : (s.game.play limit stop program.ops s.blank).ending = ending :=
    Option.some.inj ((Option.some_get _).trans ended)
  rw [summary, Command.play]
  simp only [same]
  cases ending <;> rfl

/-- A run fails, or it is summed up. -/
theorem summary_cases {given : List Op} (applied : (s.last stop limit program).applied = given) :
    given <+: Op.unrolls program.ops ∧
      ((∃ e, (s.last stop limit program).ending? = some (.failed e) ∧
          s.summary stop limit program = .error (.run e)) ∨
        ∃ summary, (s.last stop limit program).ending? = some summary.ending ∧
          s.summary stop limit program = .ok summary ∧ s.Tells (Op.unrolls program.ops) given summary) := by
  obtain ⟨taken, ending, (ended : (s.last stop limit program).ending? = some ending), course⟩ :=
    Session.run_course s.game limit stop.made program.ops s.blank s.ready rfl
  change (s.last stop limit program).applied = _ at taken
  have part : given <+: Op.unrolls program.ops := applied ▸ taken ▸ List.take_prefix ..
  have count : (s.last stop limit program).steps = given.length := by
    rw [← applied, taken, List.length_take]
    exact (Nat.min_eq_left course.within).symm
  have blocks : (s.last stop limit program).events.filterMap Event.step? = given.map Op.block := by
    rw [← applied, taken]
    exact Session.steps_run ..
  have state : (s.last stop limit program).game = s.after (Op.unrolls program.ops) given.length :=
    course.state.trans (congrArg (s.after _) count)
  have told := s.summary_eq stop limit program ended
  rw [blocks, state] at told
  refine ⟨part, ?_⟩
  cases ending with
  | failed e => exact .inl ⟨e, ended, told⟩
  | cancelled => exact .inr ⟨⟨_, .cancelled, _⟩, ended, told, nofun, rfl, nofun, nofun, nofun, rfl⟩
  | completed completion =>
    refine .inr ⟨⟨_, .completed completion, _⟩, ended, told, nofun, rfl, fun finished => ?_,
      fun message won => ?_, fun message lost => ?_, rfl⟩
    · exact part.eq_of_length (count.symm.trans (course.finished finished))
    · obtain ⟨k, op, steps, leaf, result⟩ := course.won won
      exact ⟨k, op, count.symm.trans steps, leaf, result⟩
    · obtain ⟨k, op, steps, leaf, result⟩ := course.lost lost
      exact ⟨k, op, count.symm.trans steps, leaf, result⟩

end Setting

namespace Source

/-- The workspace in the program file. -/
def workspace (files : Files) (fresh : Nat → BlockId) (source : Source) : Except CommandError Workspace :=
  ((files source.program).mapError .programFile).bind fun bytes =>
    (Workspace.ofBytes fresh bytes).mapError .program

/-- The workspace, the configuration and the compilation have passed. -/
def Compiles (files : Files) (fresh : Nat → BlockId) (source : Source) (program : Program) : Prop :=
  ∃ w config, source.workspace files fresh = .ok w ∧ source.loadConfig files = .ok config ∧
    compile config w.graph = .ok program

/-- The first stage of loading a program that does not pass, and what is wrong there. -/
inductive Rejects (files : Files) (fresh : Nat → BlockId) (source : Source) : CommandError → Prop
  | workspace {e : CommandError} (unread : source.workspace files fresh = .error e) :
      Rejects files fresh source e
  | config {w : Workspace} {e : CommandError} (read : source.workspace files fresh = .ok w)
      (unread : source.loadConfig files = .error e) : Rejects files fresh source e
  | compile {w : Workspace} {config : Config} {e : CompileError}
      (read : source.workspace files fresh = .ok w) (known : source.loadConfig files = .ok config)
      (fails : compile config w.graph = .error e) : Rejects files fresh source (.compile e)
  | validate {program : Program} {e : ValidationError} (compiles : source.Compiles files fresh program)
      (fails : validate program = .error e) : Rejects files fresh source (.validate e)

theorem load_eq (files : Files) (fresh : Nat → BlockId) (source : Source) :
    source.load files fresh = (source.workspace files fresh).bind fun w =>
      (source.loadConfig files).bind fun config =>
        ((compile config w.graph).mapError .compile).bind fun program =>
          ((validate program).mapError .validate).map fun _ => program := by
  rw [load, workspace]
  cases files source.program with
  | error fault => rfl
  | ok bytes => rfl

theorem load_cases (files : Files) (fresh : Nat → BlockId) (source : Source) :
    (∃ e, source.Rejects files fresh e ∧ source.load files fresh = .error e) ∨
      ∃ program, source.Compiles files fresh program ∧ validate program = .ok () ∧
        source.load files fresh = .ok program := by
  rw [load_eq]
  cases read : source.workspace files fresh with
  | error e => exact .inl ⟨e, .workspace read, rfl⟩
  | ok w =>
    dsimp only [Except.bind]
    cases known : source.loadConfig files with
    | error e => exact .inl ⟨e, .config read known, rfl⟩
    | ok config =>
      dsimp only
      cases compiled : compile config w.graph with
      | error e => exact .inl ⟨.compile e, .compile read known compiled, rfl⟩
      | ok program =>
        dsimp only [Except.mapError]
        have compiles : source.Compiles files fresh program := ⟨w, config, read, known, compiled⟩
        cases checked : validate program with
        | error e => exact .inl ⟨.validate e, .validate compiles checked, rfl⟩
        | ok => exact .inr ⟨program, compiles, checked, rfl⟩

end Source

namespace Command

/-- The game that is chosen, on the level in the file. -/
def setUp (files : Files) (game level : String) (pace : Pace) : Except CommandError Setting :=
  match game with
  | "maze" => (loadLevel files level Maze.read).map fun maze =>
    ⟨_, maze.game pace, .blank, Maze.State.describe, rfl⟩
  | "artist" => (loadLevel files level Canvas.read).map fun canvas =>
    ⟨_, canvas.game pace, .blank, Drawing.describe, rfl⟩
  | "farm" => (loadLevel files level Farm.read).map fun farm =>
    ⟨_, farm.game pace, .blank, Farm.State.describe, rfl⟩
  | other => .error (.unknownGame other)

theorem playProgram_eq (files : Files) (stop : StopRequest) (game level : String) (pace : Pace) (limit : Nat)
    (program : Program) :
    playProgram files stop game level pace limit program =
      match setUp files game level pace with
      | .error e => .error e
      | .ok s => s.summary stop limit program := by
  rw [playProgram.eq_def]
  split
  next =>
    rw [setUp]
    cases loadLevel files level Maze.read <;> rfl
  next =>
    rw [setUp]
    cases loadLevel files level Canvas.read <;> rfl
  next =>
    rw [setUp]
    cases loadLevel files level Farm.read <;> rfl
  next noMaze noCanvas noFarm =>
    rw [setUp]
    all_goals assumption

section Stages

variable (files : Files) (fresh : Nat → BlockId) (stop : StopRequest) (source : Source) (level : String)
  (pace : Pace) (limit : Nat)

/-- What there is to play when all stages have passed: a program, and a game on a level. -/
def prepare : Except CommandError (Program × Setting) :=
  match source.load files fresh with
  | .error e => .error e
  | .ok program =>
    match setUp files source.game level pace with
    | .error e => .error e
    | .ok s => .ok (program, s)

/-- The instructions that are given to the game. -/
def given : List Op :=
  match prepare files fresh source level pace with
  | .error _ => []
  | .ok (program, s) => (s.last stop limit program).applied

theorem playLevel_eq : playLevel files fresh stop source level pace limit =
    match prepare files fresh source level pace with
    | .error e => .error e
    | .ok (program, s) => s.summary stop limit program := by
  rw [playLevel, prepare]
  cases source.load files fresh with
  | error e => rfl
  | ok program =>
    simp only [bind, Except.bind, playProgram_eq]
    cases setUp files source.game level pace <;> rfl

/-- All stages before the run have passed, and the program is the one that is printed. -/
structure Ready (program : Program) (s : Setting) : Prop where
  compiles : source.Compiles files fresh program
  valid : validate program = .ok ()
  loaded : setUp files source.game level pace = .ok s
  printed : ∀ pretty, perform files fresh stop (.compile source pretty) = .ok (program.printed pretty ++ "\n")

/-- What the command can come to. The first stage that does not pass is the answer; if all have passed, the
program is played, and the run has failed or is summed up. -/
inductive Performed : List Op → Except CommandError Summary → Prop
  | rejects {e : CommandError} (first : source.Rejects files fresh e) : Performed [] (.error e)
  | unset {program : Program} {e : CommandError} (compiles : source.Compiles files fresh program)
      (valid : validate program = .ok ()) (unread : setUp files source.game level pace = .error e) :
      Performed [] (.error e)
  | fails {program : Program} {s : Setting} {given : List Op} {e : RunError}
      (ready : Ready files fresh stop source level pace program s)
      (applied : (s.last stop limit program).applied = given) (part : given <+: Op.unrolls program.ops)
      (ended : (s.last stop limit program).ending? = some (.failed e)) : Performed given (.error (.run e))
  | sums {program : Program} {s : Setting} {given : List Op} {summary : Summary}
      (ready : Ready files fresh stop source level pace program s)
      (applied : (s.last stop limit program).applied = given) (part : given <+: Op.unrolls program.ops)
      (ended : (s.last stop limit program).ending? = some summary.ending)
      (tells : s.Tells (Op.unrolls program.ops) given summary) : Performed given (.ok summary)

/-- The command answers with the first stage that does not pass, and gives the game no instruction before all
of them have. -/
theorem run_performed :
    Performed files fresh stop source level pace limit (given files fresh stop source level pace limit)
      (playLevel files fresh stop source level pace limit) ∧
    (given files fresh stop source level pace limit ≠ [] →
      ∃ program s, Ready files fresh stop source level pace program s) := by
  rw [playLevel_eq, given, prepare]
  rcases source.load_cases files fresh with ⟨e, first, failed⟩ | ⟨program, compiles, valid, passed⟩
  · rw [failed]
    exact ⟨.rejects first, fun some => absurd rfl some⟩
  · rw [passed]
    dsimp only
    cases loaded : setUp files source.game level pace with
    | error e => exact ⟨.unset compiles valid loaded, fun some => absurd rfl some⟩
    | ok s =>
      have printed (pretty : Bool) :
          perform files fresh stop (.compile source pretty) = .ok (program.printed pretty ++ "\n") := by
        rw [perform, passed]
        rfl
      have ready : Ready files fresh stop source level pace program s := ⟨compiles, valid, loaded, printed⟩
      refine ⟨?_, fun _ => ⟨program, s, ready⟩⟩
      dsimp only
      obtain ⟨part, ⟨e, ended, answer⟩ | ⟨summary, ended, answer, tells⟩⟩ :=
        s.summary_cases stop limit program rfl
      · rw [answer]
        exact .fails ready rfl part ended
      · rw [answer]
        exact .sums ready rfl part ended tells

end Stages

end Command

end BlockPlay

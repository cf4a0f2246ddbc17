import BlockPlay.Canvas.Drawing
import BlockPlay.Command.Basic
import BlockPlay.Compile.Basic
import BlockPlay.Compile.Document
import BlockPlay.Compile.Preset
import BlockPlay.Graph.Document
import BlockPlay.Json.Writer
import BlockPlay.Level.Document
import BlockPlay.Program.Document
import BlockPlay.Run.Document
import BlockPlay.Run.Report

/-!
What the commands print. Files are read when they are needed, so the first one that is missing or
wrong is the one that is reported.
-/
namespace BlockPlay

inductive FileFault where
  | notFound
  | isDirectory
  | notDirectory
  | notText
  deriving DecidableEq, Repr

namespace FileFault

def message : FileFault → String
  | notFound => "No such file or directory (os error 2)"
  | isDirectory => "Is a directory (os error 21)"
  | notDirectory => "Not a directory (os error 20)"
  | notText => "stream did not contain valid UTF-8"

end FileFault

abbrev Files := String → Except FileFault (List UInt8)

namespace Files

def text (files : Files) (name : String) : Except FileFault (List UInt8) := do
  let bytes ← files name
  if (String.fromUTF8? (ByteArray.mk bytes.toArray)).isNone then throw .notText
  return bytes

end Files

inductive CommandError where
  | programFile (fault : FileFault)
  | program (problem : Json.Problem)
  | configFile (fault : FileFault)
  | config (problem : Json.Problem)
  | unknownGame (name : String)
  | compile (error : CompileError)
  | validate (error : ValidationError)
  | levelFile (fault : FileFault)
  | level (problem : Json.Problem)
  | run (error : RunError)
  deriving DecidableEq, Repr

namespace CommandError

def message : CommandError → String
  | programFile f => s!"Cannot read program: io error: {f.message}"
  | program p => "Cannot read program: " ++ Workspace.problemMessage p
  | configFile f => s!"IO error: {f.message}"
  | config p => s!"Invalid JSON: {p.message}"
  | unknownGame name => s!"Unknown game '{name}' (see `blockscript presets`)"
  | compile e => s!"Compilation failed: {e.message}"
  | validate e => s!"Invalid program: {e.message}"
  | levelFile f => s!"Cannot read level: IO error: {f.message}"
  | level p => "Cannot read level: " ++ LevelFault.problemMessage p
  | run e => s!"Run failed: {e.message}"

end CommandError

namespace Source

def loadConfig (files : Files) (source : Source) : Except CommandError Config :=
  match source.config with
  | some name => do
    let bytes ← (files.text name).mapError .configFile
    (Config.ofBytes bytes).mapError .config
  | none =>
    match Preset.find? source.game with
    | some config => .ok config
    | none => .error (.unknownGame source.game)

def load (files : Files) (fresh : Nat → BlockId) (source : Source) :
    Except CommandError Program := do
  let bytes ← (files source.program).mapError .programFile
  let workspace ← (Workspace.ofBytes fresh bytes).mapError .program
  let config ← source.loadConfig files
  let program ← (compile config workspace.graph).mapError .compile
  let _ ← (validate program).mapError .validate
  return program

end Source

/-- How a run went: the blocks of its steps, its end, and where the game ended up, in words. -/
structure Summary where
  steps : List BlockId
  ending : Ending
  state : String
  deriving DecidableEq, Repr

namespace Summary

def describeEnding : Ending → String
  | .completed .finished => "finished"
  | .completed (.won m) => s!"won: {m}"
  | .completed (.lost m) => s!"lost: {m}"
  | .failed e => s!"failed: {e.message}"
  | .cancelled => "cancelled"

def describeSteps (steps : List BlockId) : String :=
  String.join (steps.zipIdx.map fun (block, i) => s!"step {i + 1}: {block}\n")

def render (s : Summary) : String :=
  describeSteps s.steps ++ s!"{describeEnding s.ending}\n{s.state}\n"

end Summary

namespace Command

/-- Plays a game; a run that failed is an error. -/
def play {σ : Type} (game : Game σ) (limit : Nat) (stop : StopRequest) (program : Program)
    (blank : σ) (describe : σ → String) : Except CommandError Summary :=
  let report := game.play limit stop program.ops blank
  match report.ending with
  | .failed e => .error (.run e)
  | ending => .ok ⟨report.events.filterMap Event.step?, ending, describe report.state⟩

def loadLevel {α : Type} (files : Files) (name : String)
    (read : Json.Context → Json.Tree → Except Json.Problem α) : Except CommandError α := do
  let bytes ← (files.text name).mapError .levelFile
  ((Json.Document.ofBytes bytes).read (read .text)).mapError .level

/-- Plays a program in one of the games, on a level from a file. -/
def playProgram (files : Files) (stop : StopRequest) (game level : String) (pace : Pace) (limit : Nat)
    (program : Program) : Except CommandError Summary :=
  match game with
  | "maze" => do
    let maze ← loadLevel files level Maze.read
    play (maze.game pace) limit stop program .blank Maze.State.describe
  | "artist" => do
    let canvas ← loadLevel files level Canvas.read
    play (canvas.game pace) limit stop program .blank Drawing.describe
  | "farm" => do
    let farm ← loadLevel files level Farm.read
    play (farm.game pace) limit stop program .blank Farm.State.describe
  | other => .error (.unknownGame other)

def playLevel (files : Files) (fresh : Nat → BlockId) (stop : StopRequest) (source : Source)
    (level : String) (pace : Pace) (limit : Nat) : Except CommandError Summary := do
  let program ← source.load files fresh
  playProgram files stop source.game level pace limit program

def perform (files : Files) (fresh : Nat → BlockId) (stop : StopRequest) :
    Command → Except CommandError String
  | .presets => .ok (String.intercalate "\n" Preset.names ++ "\n")
  | .compile source pretty =>
    (source.load files fresh).map fun program =>
      (if pretty then program.toValue.renderPretty else program.toValue.render) ++ "\n"
  | .run source level stepMillis maxSteps =>
    (playLevel files fresh stop source level ⟨stepMillis⟩
      (maxSteps.getD RunSettings.default.maxSteps)).map Summary.render

end Command

structure Output where
  exitCode : Nat
  out : String
  err : String
  deriving DecidableEq, Repr

namespace Output

def version : String := "blockscript 0.1.0\n"

def usage : String := "usage: blockscript <compile|run|presets> [options]\n"

def ofUsage : Usage → Output
  | .version => ⟨0, version, ""⟩
  | .help => ⟨0, usage, ""⟩
  | u => ⟨u.exitCode, "", usage⟩

def ofResult : Except CommandError String → Output
  | .ok text => ⟨0, text, ""⟩
  | .error e => ⟨1, "", s!"Error: {e.message}\n"⟩

end Output

end BlockPlay

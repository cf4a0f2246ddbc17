/-!
The commands of the tool, and the ways in which a command line can be wrong.
-/
namespace BlockPlay

/-- Where a program comes from, and the configuration that it is compiled under: the one in a file,
or else the one of a game. -/
structure Source where
  program : String
  game : String
  config : Option String
  deriving DecidableEq, Repr

inductive Command where
  | compile (source : Source) (pretty : Bool)
  | run (source : Source) (level : String) (stepMillis : Nat) (maxSteps : Option Nat)
  | presets
  deriving DecidableEq, Repr

/-- Why a command line is no command. Help and the version are asked for rather than wrong. -/
inductive Usage where
  | help
  | version
  | nothing
  | unknownCommand
  | unknownArgument
  | missingArgument
  | emptyValue
  | badValue
  | repeated
  | surplusValue
  deriving DecidableEq, Repr

namespace Usage

def exitCode : Usage → Nat
  | help | version => 0
  | _ => 2

end Usage

end BlockPlay

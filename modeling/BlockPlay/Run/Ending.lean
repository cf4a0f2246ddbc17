import BlockPlay.Compile.Error

/-!
How runs end, and where a run stands between its start and its end.
-/
namespace BlockPlay

inductive Completion where
  | finished
  | won (message : String)
  | lost (message : String)
  deriving DecidableEq, Repr, Inhabited

namespace Completion

def shown : Completion → String
  | finished => "Finished"
  | won m => Text.tagged "Won" [Text.quoted m]
  | lost m => Text.tagged "Lost" [Text.quoted m]

end Completion

inductive RunError where
  | step (block : BlockId) (message : String)
  | reset (message : String)
  | stepLimit (limit : Nat)
  | crashedInReset (message : Option String)
  | crashedAt (block : BlockId) (message : Option String)
  deriving DecidableEq, Repr

namespace RunError

def crash (message : Option String) : String := message.getD "unknown panic"

def aborted (place : String) (message : Option String) : String :=
  s!"adapter panicked {place}: {crash message}"

def message : RunError → String
  | step block m => s!"block '{block}' failed: {m}"
  | reset m => s!"could not reset the game: {m}"
  | stepLimit limit => s!"stopped after {limit} steps; a loop may be running too long"
  | crashedInReset m => "run aborted: " ++ aborted "during reset" m
  | crashedAt block m => "run aborted: " ++ aborted s!"at block '{block}'" m

def refusal (message : String) : String := Text.record "AdapterError" [("message", Text.quoted message)]

def shown : RunError → String
  | step block m => Text.record "Step" [("block", block.shown), ("source", refusal m)]
  | reset m => Text.tagged "Reset" [refusal m]
  | stepLimit limit => Text.record "StepLimit" [("limit", toString limit)]
  | crashedInReset m => Text.tagged "Aborted" [Text.quoted (aborted "during reset" m)]
  | crashedAt block m => Text.tagged "Aborted" [Text.quoted (aborted s!"at block '{block}'" m)]

end RunError

/-- Where a run stands. It is idle, then running, and then at its end for good. -/
inductive Status where
  | idle
  | running
  | done
  | failed
  | cancelled
  deriving DecidableEq, Repr, Inhabited

namespace Status

def all : List Status := [idle, running, done, failed, cancelled]

def name : Status → String
  | idle => "idle"
  | running => "running"
  | done => "done"
  | failed => "failed"
  | cancelled => "cancelled"

def isTerminal : Status → Bool
  | idle | running => false
  | _ => true

end Status

inductive Ending where
  | completed (completion : Completion)
  | failed (error : RunError)
  | cancelled
  deriving DecidableEq, Repr

namespace Ending

/-- The status in which a run with this ending stays. -/
def status : Ending → Status
  | completed _ => .done
  | failed _ => .failed
  | cancelled => .cancelled

def shown : Ending → String
  | completed c => Text.tagged "Completed" [c.shown]
  | failed e => Text.tagged "Failed" [e.shown]
  | cancelled => "Cancelled"

end Ending

end BlockPlay

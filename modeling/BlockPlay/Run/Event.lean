import BlockPlay.Run.Ending

/-!
What a run tells its observer, and what observers listen to.
-/
namespace BlockPlay

inductive Event where
  | step (block : BlockId)
  | status (status : Status)
  | done (completion : Completion)
  | error (error : RunError)
  | cancelled
  deriving DecidableEq, Repr

namespace Event

def last : Ending → Event
  | .completed c => done c
  | .failed e => error e
  | .cancelled => cancelled

def step? : Event → Option BlockId
  | step block => some block
  | _ => none

def status? : Event → Option Status
  | status s => some s
  | _ => none

def completion? : Event → Option Completion
  | done c => some c
  | _ => none

def isError : Event → Bool
  | error _ => true
  | _ => false

def shown : Event → String
  | step block => Text.tagged "Step" [block.shown]
  | status s => Text.tagged "Status" [Text.quoted s.name]
  | done c => Text.tagged "Done" [c.shown]
  | error e => Text.tagged "Error" [e.shown]
  | cancelled => "Cancelled"

end Event

structure Observer where
  step : Bool
  status : Bool
  done : Bool
  error : Bool
  cancelled : Bool
  deriving DecidableEq, Repr

namespace Observer

def all : Observer := ⟨true, true, true, true, true⟩

def steps : Observer := ⟨true, false, false, false, false⟩

def none : Observer := ⟨false, false, false, false, false⟩

def hears (o : Observer) : Event → Bool
  | .step _ => o.step
  | .status _ => o.status
  | .done _ => o.done
  | .error _ => o.error
  | .cancelled => o.cancelled

def shown (o : Observer) : String :=
  Text.record "Callbacks"
    [("step", toString o.step), ("status", toString o.status), ("done", toString o.done),
      ("error", toString o.error), ("cancelled", toString o.cancelled)]

end Observer

end BlockPlay

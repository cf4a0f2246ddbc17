/-!
When a host asks a run to stop.
-/
namespace BlockPlay

/-- The occasions on which a host asks a run to stop: before the run starts, while it is told of a
certain step, or after some time. -/
structure StopRequest where
  before : Bool
  atStep : Option Nat
  atMillis : Option Nat
  deriving DecidableEq, Repr

namespace StopRequest

def never : StopRequest := ⟨false, none, none⟩

/-- Whether the run has been asked to stop when so many steps have been started, at a time. A host
that wakes up at the same time as the run goes first. -/
def made (r : StopRequest) (steps clock : Nat) : Bool :=
  r.before || r.atStep.any (fun n => 0 < n && n ≤ steps) || r.atMillis.any (· ≤ clock)

end StopRequest

end BlockPlay

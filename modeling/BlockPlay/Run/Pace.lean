/-!
How long instructions take. Without a pace nothing takes time, and pauses are passed over too.
-/
namespace BlockPlay

structure Pace where
  millis : Nat
  deriving DecidableEq, Repr

namespace Pace

def instant : Pace := ⟨0⟩

def isInstant (p : Pace) : Bool := p.millis == 0

def step (p : Pace) : Nat := p.millis

def hold (p : Pace) (millis : Nat) : Nat := if p.isInstant then 0 else millis

end Pace

end BlockPlay

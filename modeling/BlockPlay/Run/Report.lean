import BlockPlay.Run.Session
import BlockPlay.Run.Stop

/-!
What a run leaves behind, for the host that has started it.
-/
namespace BlockPlay

/-- How a run ended, the game after it, the steps started, the time that passed, and the events. -/
structure Report (σ : Type) where
  ending : Ending
  state : σ
  steps : Nat
  clock : Nat
  events : List Event

namespace Report

variable {σ : Type}

def heard (r : Report σ) (o : Observer) : List Event := r.events.filter o.hears

/-- The status that a host sees that wakes up at a time. -/
def statusAt (r : Report σ) (time : Nat) : Status :=
  if time = 0 then .idle else if r.clock < time then r.ending.status else .running

/-- The time at which both the run and a host that sleeps until a time are done. -/
def elapsed (r : Report σ) (wake : Option Nat) : Nat := max r.clock (wake.getD 0)

end Report

namespace Game

variable {σ : Type}

def play (game : Game σ) (limit : Nat) (stop : StopRequest) (ops : List Op) (state : σ) : Report σ :=
  let s := (Session.new ops state).run game limit stop.made
  { ending := s.ending?.get (Session.ending?_run game limit stop.made _)
    state := s.game
    steps := s.steps
    clock := s.clock
    events := s.events }

end Game

end BlockPlay

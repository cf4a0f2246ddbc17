import BlockPlay.Run.Game

/-!
A game that follows a script: whatever the instruction, the answer is the next one that the script
gives. It shows how a run deals with answers of every kind.
-/
namespace BlockPlay

/-- How a scripted game answers, and how long it takes before it does. -/
structure Script where
  answers : List (Except Fault Outcome)
  resetAnswer : Option (Except Fault Outcome)
  delay : Nat
  deriving Repr

namespace Script

structure State where
  seen : List String
  answers : List (Except Fault Outcome)
  deriving Repr

/-- A game that has been played before. -/
def start (s : Script) : State := ⟨["dirty"], s.answers⟩

def memory : Nat := 50

def remember (seen : List String) (op : Op) : List String :=
  if seen.length < memory then seen ++ [s!"{op.block}:{op.describe}"] else seen

/-- After the end of the script every instruction goes well. -/
def apply (s : Script) (op : Op) (state : State) : Answer State Outcome where
  result := state.answers.head?.getD (.ok .ongoing)
  state := ⟨remember state.seen op, state.answers.tail⟩
  millis := s.delay

/-- A reset forgets what has been seen, unless the script has no answer to it. -/
def reset (s : Script) (state : State) : Answer State Unit :=
  match s.resetAnswer with
  | none => ⟨.ok (), state, 0⟩
  | some answer => ⟨answer.map fun _ => (), { state with seen := [] }, 0⟩

def game (s : Script) : Game State := ⟨s.reset, s.apply⟩

end Script

end BlockPlay

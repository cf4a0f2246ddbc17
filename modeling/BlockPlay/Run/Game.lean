import BlockPlay.Program.Op

/-!
What a run needs to know of a game: how to put it back to its start, and how one instruction changes
it. Both take a state of the game to the next one, take some time, and can go wrong.
-/
namespace BlockPlay

/-- What a game says after an instruction. A level that is won or lost is at its end, with a message
for the player. -/
inductive Outcome where
  | ongoing
  | won (message : String)
  | lost (message : String)
  deriving DecidableEq, Repr, Inhabited

namespace Outcome

def isTerminal : Outcome → Bool
  | ongoing => false
  | _ => true

end Outcome

/-- A game can refuse with a message, or break off in the middle, with a message or without one. -/
inductive Fault where
  | refused (message : String)
  | crashed (message : Option String)
  deriving DecidableEq, Repr

namespace Fault

def unsupported (op : Op) : Fault := refused s!"this game has no '{op.name}' instruction"

end Fault

/-- The result of a call, the state of the game after it, and the milliseconds that it took. -/
structure Answer (σ α : Type) where
  result : Except Fault α
  state : σ
  millis : Nat

structure Game (σ : Type) where
  reset : σ → Answer σ Unit
  apply : Op → σ → Answer σ Outcome

end BlockPlay

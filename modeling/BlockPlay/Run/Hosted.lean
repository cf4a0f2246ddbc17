import BlockPlay.Run.Session

/-!
A run beside its host. The two take turns in any order: the host can ask the run to stop again and again,
and the run begins a stage or gets done with it. It sees that it was asked when it begins to check, and in
between it does not look; what the host does while an instruction is being carried out comes to the same
as what it does before or after it.
-/
namespace BlockPlay

/-- What has been done when a stage has begun and is not over yet. -/
def Stage.opening : Stage → List Deed
  | .check => [.looked]
  | .apply op => [.given op]
  | _ => []

/-- A run, whether it has been asked to stop, and what it saw of that when it began the stage that is under
way. -/
structure Hosted (σ : Type) where
  session : Session σ
  asked : Bool
  underway : Option Bool

/-- A turn of the host, or a turn of the run. -/
inductive Act where
  | ask
  | go
  deriving DecidableEq, Repr

namespace Hosted

variable {σ : Type}

def new (ops : List Op) (game : σ) : Hosted σ := ⟨Session.new ops game, false, none⟩

/-- All that has been done, also in the stage that is under way. -/
def trace (x : Hosted σ) : List Deed :=
  x.session.past ++ if x.underway.isSome then x.session.stage.opening else []

def go (game : Game σ) (limit : Nat) (x : Hosted σ) : Hosted σ :=
  match x.underway with
  | none => { x with underway := some x.asked }
  | some seen => { x with session := x.session.step game limit seen, underway := none }

def act (game : Game σ) (limit : Nat) (x : Hosted σ) : Act → Hosted σ
  | .ask => { x with asked := true }
  | .go => x.go game limit

def play (game : Game σ) (limit : Nat) (acts : List Act) (x : Hosted σ) : Hosted σ :=
  acts.foldl (act game limit) x

end Hosted

end BlockPlay

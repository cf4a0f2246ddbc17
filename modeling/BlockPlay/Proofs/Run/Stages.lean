import BlockPlay.Proofs.Run.Fold

/-!
The stages of a run. Each way in which a stage can go is one case, with what the session looked at and
what it is afterwards; facts about every step go through these cases.
-/
namespace BlockPlay

namespace Session

variable {σ : Type}

/-- What becomes of a session in one stage. -/
inductive Stepped (game : Game σ) (limit : Nat) (stop : Bool) (s : Session σ) : Session σ → Prop where
  | start (stage : s.stage = .start) : Stepped game limit stop s (s.enter .running .reset)
  | ready (stage : s.stage = .reset) :
      Stepped game limit stop s { s.called .reset (game.reset s.game) with stage := .check }
  | unready (stage : s.stage = .reset) (fault : Fault) :
      Stepped game limit stop s
        ((s.called .reset (game.reset s.game)).finish (.failed (Session.unready fault)))
  | stopped (stage : s.stage = .check) (seen : stop = true) :
      Stepped game limit stop s ((s.record .looked).finish .cancelled)
  | finished (stage : s.stage = .check) (unseen : stop = false) (cursor : Cursor) :
      Stepped game limit stop s ({ s.record .looked with cursor := cursor }.finish (.completed .finished))
  | spent (stage : s.stage = .check) (unseen : stop = false) (cursor : Cursor) :
      Stepped game limit stop s
        ({ s.record .looked with cursor := cursor }.finish (.failed (.stepLimit limit)))
  | fetched (stage : s.stage = .check) (unseen : stop = false) (op : Op) (cursor : Cursor) :
      Stepped game limit stop s
        { s.record .looked with stage := .announce op, cursor := cursor, steps := s.steps + 1 }
  | announced (op : Op) (stage : s.stage = .announce op) :
      Stepped game limit stop s (s.tell (.step op.block) (.apply op))
  | carried (op : Op) (stage : s.stage = .apply op) :
      Stepped game limit stop s
        { (s.record (.given op)).called (.applied op) (game.apply op s.game) with stage := .check }
  | settled (op : Op) (stage : s.stage = .apply op) (ending : Ending)
      (decided : Session.settled op.block (game.apply op s.game).result = some ending) :
      Stepped game limit stop s
        (((s.record (.given op)).called (.applied op) (game.apply op s.game)).finish ending)
  | reported (ending : Ending) (stage : s.stage = .report ending) :
      Stepped game limit stop s (s.tell (Event.last ending) (.ended ending))
  | stayed (ending : Ending) (stage : s.stage = .ended ending) : Stepped game limit stop s s

theorem stepped (game : Game σ) (limit : Nat) (stop : Bool) (s : Session σ) :
    Stepped game limit stop s (s.step game limit stop) := by
  cases stage : s.stage with
  | start =>
    simp only [step, stage]
    exact .start stage
  | reset =>
    simp only [step, stage]
    cases (game.reset s.game).result with
    | ok => exact .ready stage
    | error fault =>
      rw [concludeReset_error]
      exact .unready stage fault
  | check =>
    simp only [step, stage]
    cases stop with
    | true => exact .stopped stage rfl
    | false =>
      rw [if_neg Bool.false_ne_true]
      unfold fetch
      split
      next cursor _ => exact .finished stage rfl cursor
      next op cursor _ =>
        split
        next => exact .fetched stage rfl op cursor
        next => exact .spent stage rfl cursor
  | announce op =>
    simp only [step, stage]
    exact .announced op stage
  | apply op =>
    simp only [step, stage, conclude_eq]
    cases decided : Session.settled op.block (game.apply op s.game).result with
    | none => exact .carried op stage
    | some ending => exact .settled op stage ending decided
  | report ending =>
    simp only [step, stage]
    exact .reported ending stage
  | ended ending =>
    simp only [step, stage]
    exact .stayed ending stage

end Session

end BlockPlay

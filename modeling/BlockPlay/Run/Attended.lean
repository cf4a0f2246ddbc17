import BlockPlay.Run.Session

/-!
Runs as they are seen from outside. A run tells a listener of events, one after the other, while it goes
on. A listener that breaks off in the middle is passed over: the run goes on as if nothing had happened,
and tells it of the next event too.
-/
namespace BlockPlay

/-- Something that listens to a run. What it hears changes it, and it can break off with a message or
without one. -/
structure Listener (τ : Type) where
  hear : Event → τ → Except (Option String) Unit × τ

/-- What has become of a listener, and how it broke off, the latest time first. -/
structure Hearing (τ : Type) where
  listener : τ
  crashes : List (Option String)

def Listener.notify {τ : Type} (l : Listener τ) (h : Hearing τ) (event : Event) : Hearing τ :=
  match l.hear event h.listener with
  | (.ok (), later) => { h with listener := later }
  | (.error message, later) => ⟨later, message :: h.crashes⟩

/-- What a later session has done that an earlier one had not done yet, from the first to the last. -/
def Session.fresh {σ : Type} (before after : Session σ) : List Deed :=
  (after.deeds.take (after.deeds.length - before.deeds.length)).reverse

/-- A run with its listener. -/
structure Attended (σ τ : Type) where
  session : Session σ
  hearing : Hearing τ

namespace Attended

variable {σ τ : Type}

def new (ops : List Op) (game : σ) (listener : τ) : Attended σ τ :=
  ⟨Session.new ops game, ⟨listener, []⟩⟩

def step (l : Listener τ) (game : Game σ) (limit : Nat) (stop : Bool) (a : Attended σ τ) :
    Attended σ τ :=
  let next := a.session.step game limit stop
  { session := next
    hearing := ((a.session.fresh next).filterMap Deed.event?).foldl l.notify a.hearing }

def run (l : Listener τ) (game : Game σ) (limit : Nat) (stop : Nat → Nat → Bool)
    (a : Attended σ τ) : Attended σ τ :=
  if a.session.ending? = none then
    run l game limit stop (a.step l game limit (stop a.session.steps a.session.clock))
  else a
termination_by a.session.work limit
decreasing_by exact Session.work_step_lt (by assumption)

end Attended

end BlockPlay

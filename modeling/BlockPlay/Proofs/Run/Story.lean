import BlockPlay.Run.Attended
import BlockPlay.Proofs.Run.Stages

/-!
What is done in a run, from first to last. Up to each stage it is told by the leaves carried out so far,
whatever the game answers and whenever a stop is asked for, and every step of a session carries the account
on.
-/
namespace BlockPlay

namespace Session

variable {σ τ : Type}

def opened : List Deed := [.entered .running, .told (.status .running)]

/-- A leaf is told of right before the game is given it. -/
def played (op : Op) : List Deed := [.looked, .told (.step op.block), .given op, .applied op]

/-- The story of a run up to the next look, after so many leaves. -/
def begun (leaves : List Op) : List Deed := opened ++ .reset :: leaves.flatMap played

/-- The look after which a run ends, unless a call to the game ends it. -/
def lastLook : Ending → List Deed
  | .cancelled | .completed .finished | .failed (.stepLimit _) => [.looked]
  | _ => []

def closed (ending : Ending) : List Deed := [.entered ending.status, .told (.status ending.status)]

def story (ending : Ending) (leaves : List Op) : List Deed :=
  begun leaves ++ lastLook ending ++ closed ending ++ [.told (Event.last ending)]

/-- What has been done before a stage begins, and how the leaves of the program are split into those
carried out and those that the cursor owes. -/
inductive Account (leaves : List Op) (s : Session σ) : Prop where
  | start (stage : s.stage = .start) (none : s.steps = 0)
      (split : leaves = Cursor.pending s.cursor.frames) (past : s.past = [])
  | reset (stage : s.stage = .reset) (none : s.steps = 0)
      (split : leaves = Cursor.pending s.cursor.frames) (past : s.past = opened)
  | check (done : List Op) (stage : s.stage = .check) (count : s.steps = done.length)
      (split : leaves = done ++ Cursor.pending s.cursor.frames) (past : s.past = begun done)
  | announce (done : List Op) (op : Op) (stage : s.stage = .announce op)
      (count : s.steps = done.length + 1)
      (split : leaves = done ++ op :: Cursor.pending s.cursor.frames)
      (past : s.past = begun done ++ [.looked])
  | apply (done : List Op) (op : Op) (stage : s.stage = .apply op)
      (count : s.steps = done.length + 1)
      (split : leaves = done ++ op :: Cursor.pending s.cursor.frames)
      (past : s.past = begun done ++ [.looked, .told (.step op.block)])
  | report (done rest : List Op) (ending : Ending) (stage : s.stage = .report ending)
      (count : s.steps = done.length) (split : leaves = done ++ rest)
      (past : s.past = begun done ++ lastLook ending ++ closed ending)
  | ended (done rest : List Op) (ending : Ending) (stage : s.stage = .ended ending)
      (count : s.steps = done.length) (split : leaves = done ++ rest)
      (past : s.past = story ending done)

theorem begun_append (done : List Op) (op : Op) :
    begun (done ++ [op]) = begun done ++ played op := by
  simp [begun]

variable {game : Game σ} {limit : Nat} {stop : Bool} {leaves : List Op} {s : Session σ}

theorem lastLook_unready (fault : Fault) : lastLook (.failed (unready fault)) = [] := by
  cases fault <;> rfl

theorem lastLook_settled {block : BlockId} {result : Except Fault Outcome} {ending : Ending}
    (decided : settled block result = some ending) : lastLook ending = [] := by
  rcases result with (_ | _) | (_ | _ | _) <;> cases decided <;> rfl

theorem past_finish (s : Session σ) (ending : Ending) : (s.finish ending).past = s.past ++ closed ending :=
  past_enter ..

theorem Account.of_finish (done : List Op) {rest : List Op} {ending : Ending}
    (count : s.steps = done.length) (split : leaves = done ++ rest)
    (past : s.past = begun done ++ lastLook ending) : Account leaves (s.finish ending) := by
  refine .report done rest ending rfl count split ?_
  rw [past_finish, past]

theorem step_ended {ending : Ending} (stage : s.stage = .ended ending) : s.step game limit stop = s := by
  simp only [step, stage]

theorem Account.of_reset (stage : s.stage = .reset) (none : s.steps = 0)
    (split : leaves = Cursor.pending s.cursor.frames) (past : s.past = opened) :
    Account leaves (s.step game limit stop) := by
  have next : s.step game limit stop =
      (s.called .reset (game.reset s.game)).concludeReset (game.reset s.game).result := by
    simp only [Session.step, stage]
  have called : (s.called .reset (game.reset s.game)).past = begun [] := by
    rw [past_called, past]
    rfl
  rw [next]
  cases (game.reset s.game).result with
  | ok => exact .check [] rfl none split called
  | error fault =>
    rw [concludeReset_error]
    refine .of_finish [] none split ?_
    rw [called, lastLook_unready, List.append_nil]

/-- A look ends the run, or the next leaf is fetched and nothing has been done but the look. -/
theorem Account.of_check (done : List Op) (stage : s.stage = .check) (count : s.steps = done.length)
    (split : leaves = done ++ Cursor.pending s.cursor.frames) (past : s.past = begun done) :
    Account leaves (s.step game limit stop) := by
  have next : s.step game limit stop =
      if stop then (s.record .looked).finish .cancelled else (s.record .looked).fetch limit := by
    simp only [Session.step, stage]
  have looked : (s.record .looked).past = begun done ++ [.looked] := by rw [past_record, past]
  rw [next]
  cases stop with
  | true => exact .of_finish done count split looked
  | false =>
    rw [if_neg Bool.false_ne_true]
    cases owed : Cursor.pending s.cursor.frames with
    | nil =>
      obtain ⟨cursor, fetched⟩ := fetch_of_nil limit (s := s.record .looked) owed
      rw [fetched]
      exact .of_finish done count split looked
    | cons op rest =>
      obtain ⟨cursor, later, fetched⟩ := fetch_of_cons limit (s := s.record .looked) owed
      rw [fetched]
      split
      next =>
        refine .announce done op rfl (congrArg (· + 1) count) ?_ looked
        rw [split, owed, later]
      next => exact .of_finish done count split looked

/-- A leaf that has been carried out is one of those done, also if it ends the run. -/
theorem Account.of_apply (done : List Op) (op : Op) (stage : s.stage = .apply op)
    (count : s.steps = done.length + 1) (split : leaves = done ++ op :: Cursor.pending s.cursor.frames)
    (past : s.past = begun done ++ [.looked, .told (.step op.block)]) :
    Account leaves (s.step game limit stop) := by
  have next : s.step game limit stop =
      ((s.record (.given op)).called (.applied op) (game.apply op s.game)).conclude op
        (game.apply op s.game).result := by
    simp only [Session.step, stage]
  have length : s.steps = (done ++ [op]).length := by simp [count]
  have split' : leaves = (done ++ [op]) ++ Cursor.pending s.cursor.frames := by simp [split]
  have called : ((s.record (.given op)).called (.applied op) (game.apply op s.game)).past =
      begun (done ++ [op]) := by
    simp [past, begun_append, played]
  rw [next, conclude_eq]
  cases decided : settled op.block (game.apply op s.game).result with
  | none => exact .check (done ++ [op]) rfl length split' called
  | some ending =>
    refine .of_finish _ length split' ?_
    rw [called, lastLook_settled decided, List.append_nil]

theorem Account.step (account : Account leaves s) (game : Game σ) (limit : Nat) (stop : Bool) :
    Account leaves (s.step game limit stop) := by
  cases account with
  | start stage none split past =>
    have next : s.step game limit stop = s.enter .running .reset := by simp only [Session.step, stage]
    rw [next]
    refine .reset rfl none split ?_
    rw [past_enter, past]
    rfl
  | reset stage none split past => exact .of_reset stage none split past
  | check done stage count split past => exact .of_check done stage count split past
  | announce done op stage count split past =>
    have next : s.step game limit stop = s.tell (.step op.block) (.apply op) := by
      simp only [Session.step, stage]
    rw [next]
    refine .apply done op rfl count split ?_
    rw [past_tell, past, List.append_assoc]
    rfl
  | apply done op stage count split past => exact .of_apply done op stage count split past
  | report done rest ending stage count split past =>
    have next : s.step game limit stop = s.tell (Event.last ending) (.ended ending) := by
      simp only [Session.step, stage]
    rw [next]
    refine .ended done rest ending rfl count split ?_
    rw [past_tell, past, story]
  | ended done rest ending stage count split past =>
    rw [step_ended stage]
    exact .ended done rest ending stage count split past

theorem Account.new (ops : List Op) (state : σ) : Account (Op.unrolls ops) (Session.new ops state) :=
  .start rfl rfl (Cursor.pending_start ops).symm rfl

theorem Account.run (account : Account leaves s) (game : Game σ) (limit : Nat) (stop : Nat → Nat → Bool) :
    Account leaves (s.run game limit stop) := by
  fun_induction Session.run game limit stop s with
  | case1 s going ih => exact ih (account.step game limit _)
  | case2 s finished => exact account

theorem Account.of_ended {ending : Ending} (account : Account leaves s) (finished : s.ending? = some ending) :
    s.past = story ending (leaves.take s.steps) ∧ s.steps ≤ leaves.length := by
  cases account with
  | ended done rest last stage count split past =>
    obtain rfl : last = ending := by simpa [ending?, stage] using finished
    rw [past, split, count]
    simp
  | start stage | reset stage | check _ stage | announce _ _ stage | apply _ _ stage
  | report _ _ _ stage => simp [ending?, stage] at finished

section Deeds

theorem step_deeds (game : Game σ) (limit : Nat) (stop : Bool) (s : Session σ) :
    ∃ new, (s.step game limit stop).deeds = new ++ s.deeds := by
  have went := stepped game limit stop s
  generalize s.step game limit stop = after at went ⊢
  cases went with
  | stayed => exact ⟨[], rfl⟩
  | ready | fetched | announced | reported => exact ⟨[_], rfl⟩
  | start | carried => exact ⟨[_, _], rfl⟩
  | unready | stopped | finished | spent => exact ⟨[_, _, _], rfl⟩
  | settled => exact ⟨[_, _, _, _], rfl⟩

theorem fresh_of_deeds {before after : Session σ} (new : List Deed)
    (deeds : after.deeds = new ++ before.deeds) : before.fresh after = new.reverse := by
  simp [fresh, deeds]

theorem past_step (game : Game σ) (limit : Nat) (stop : Bool) (s : Session σ) :
    (s.step game limit stop).past = s.past ++ s.fresh (s.step game limit stop) := by
  obtain ⟨new, deeds⟩ := step_deeds game limit stop s
  rw [fresh_of_deeds new deeds, past, deeds, List.reverse_append, past]

theorem events_eq (s : Session σ) : s.events = (s.deeds.filterMap Deed.event?).reverse := by
  rw [events, ← List.append_nil (s.deeds.filterMap Deed.event?).reverse]
  generalize ([] : List Event) = later
  induction s.deeds generalizing later with
  | nil => rfl
  | cons deed deeds ih =>
    rw [List.foldl_cons, ih]
    cases deed with
    | told event => simp [Deed.event?]
    | entered | looked | reset | given | applied => rfl

theorem events_past (s : Session σ) : s.events = s.past.filterMap Deed.event? := by
  rw [events_eq, past, List.filterMap_reverse]

theorem filterMap_begun (leaves : List Op) :
    (begun leaves).filterMap Deed.event? =
      .status .running :: leaves.map fun op => .step op.block := by
  have told : (leaves.flatMap played).filterMap Deed.event? =
      leaves.map fun op => .step op.block := by
    induction leaves with
    | nil => rfl
    | cons op leaves ih =>
      rw [List.flatMap_cons, List.filterMap_append, ih]
      rfl
  rw [begun, List.filterMap_append, List.filterMap_cons_none rfl, told]
  rfl

theorem filterMap_story (ending : Ending) (leaves : List Op) :
    (story ending leaves).filterMap Deed.event? =
      .status .running :: leaves.map (fun op => .step op.block) ++
        [.status ending.status, Event.last ending] := by
  have silent : (lastLook ending).filterMap Deed.event? = [] := by
    rcases ending with (_ | _ | _) | (_ | _ | _ | _ | _) | _ <;> rfl
  rw [story, List.filterMap_append, List.filterMap_append, List.filterMap_append, filterMap_begun,
    silent, List.append_nil, List.append_assoc]
  rfl

end Deeds

section Listening

/-- The listener has heard each of the events of the run in turn. -/
def Heard (l : Listener τ) (first : Hearing τ) (a : Attended σ τ) : Prop :=
  a.hearing = a.session.events.foldl l.notify first

theorem Heard.step {l : Listener τ} {first : Hearing τ} {a : Attended σ τ} (heard : Heard l first a)
    (game : Game σ) (limit : Nat) (stop : Bool) : Heard l first (a.step l game limit stop) := by
  have more : (a.session.step game limit stop).events = a.session.events ++
      (a.session.fresh (a.session.step game limit stop)).filterMap Deed.event? := by
    rw [events_past, past_step, List.filterMap_append, ← events_past]
  rw [Heard]
  simp only [Attended.step]
  rw [more, List.foldl_append, heard]

theorem Heard.run {l : Listener τ} {first : Hearing τ} {a : Attended σ τ} (heard : Heard l first a)
    (game : Game σ) (limit : Nat) (stop : Nat → Nat → Bool) :
    Heard l first (a.run l game limit stop) ∧
      (a.run l game limit stop).session = a.session.run game limit stop := by
  fun_induction Attended.run l game limit stop a with
  | case1 a going ih =>
    obtain ⟨final, same⟩ := ih (heard.step game limit _)
    refine ⟨final, ?_⟩
    rw [same, run_step going]
    rfl
  | case2 a finished =>
    refine ⟨heard, ?_⟩
    rw [Session.run, if_neg finished]

theorem stage_of_ending? {s : Session σ} {ending : Ending} (finished : s.ending? = some ending) :
    s.stage = .ended ending := by
  unfold ending? at finished
  split at finished
  next stage =>
    cases finished
    exact stage
  next => contradiction

end Listening

end Session

end BlockPlay

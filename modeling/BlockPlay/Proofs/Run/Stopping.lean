import BlockPlay.Run.Hosted
import BlockPlay.Proofs.Run.Story

/-!
Stops at any time. A host and a run take turns in some order, and from the first time that the host asks
it to stop the run looks at most once more. What a run has done is counted by its looks: between two looks
one leaf is told of, given to the game and carried out.
-/
namespace BlockPlay

namespace Deed

def isLook : Deed → Bool
  | looked => true
  | _ => false

def isStep : Deed → Bool
  | told (.step _) => true
  | _ => false

def isGiven : Deed → Bool
  | given _ => true
  | _ => false

def isCarriedOut : Deed → Bool
  | applied _ => true
  | _ => false

end Deed

/-- The turns in which a run that has been asked to stop is over, when a stage is about to begin. -/
def Stage.patience : Stage → Nat
  | start | announce _ => 8
  | reset | apply _ => 6
  | check => 4
  | report _ => 2
  | ended _ => 0

theorem Stage.patience_le (stage : Stage) : stage.patience ≤ 8 := by
  cases stage <;> simp [patience]

theorem Stage.ended_of_patience {stage : Stage} (little : stage.patience ≤ 1) :
    ∃ ending, stage = .ended ending := by
  cases stage with
  | ended ending => exact ⟨ending, rfl⟩
  | start | reset | check | announce | apply | report => simp [patience] at little

namespace Session

variable {σ : Type}

/-- Deeds of which there is one for each leaf that is played, after its look. -/
structure OncePerLeaf (p : Deed → Bool) : Prop where
  look : p .looked = false
  opening : (begun []).countP p = 0
  play : ∀ op, (played op).countP p = 1
  closing : ∀ ending, (closed ending).countP p = 0
  last : ∀ ending, p (.told (Event.last ending)) = false

theorem oncePerLeaf_isStep : OncePerLeaf Deed.isStep where
  look := rfl
  opening := rfl
  play _ := rfl
  closing _ := rfl
  last ending := by cases ending <;> rfl

theorem oncePerLeaf_isGiven : OncePerLeaf Deed.isGiven where
  look := rfl
  opening := rfl
  play _ := rfl
  closing _ := rfl
  last _ := rfl

theorem oncePerLeaf_isCarriedOut : OncePerLeaf Deed.isCarriedOut where
  look := rfl
  opening := rfl
  play _ := rfl
  closing _ := rfl
  last _ := rfl

theorem countP_begun {p : Deed → Bool} (opening : (begun []).countP p = 0)
    (play : ∀ op, (played op).countP p = 1) (leaves : List Op) :
    (begun leaves).countP p = leaves.length := by
  have plays : (leaves.flatMap played).countP p = leaves.length := by
    induction leaves with
    | nil => rfl
    | cons op leaves ih => rw [List.flatMap_cons, List.countP_append, play, ih, List.length_cons,
        Nat.add_comm]
  have split : begun leaves = begun [] ++ leaves.flatMap played := by simp [begun]
  rw [split, List.countP_append, opening, plays, Nat.zero_add]

theorem looks_begun (leaves : List Op) : (begun leaves).countP Deed.isLook = leaves.length :=
  countP_begun rfl (fun _ => rfl) leaves

theorem looks_lastLook (ending : Ending) : (lastLook ending).countP Deed.isLook ≤ 1 ∧
    (ending.status = .cancelled → (lastLook ending).countP Deed.isLook = 1) := by
  rcases ending with (_ | _ | _) | (_ | _ | _ | _ | _) | _ <;>
    simp [lastLook, Ending.status, Deed.isLook]

theorem OncePerLeaf.countP_lastLook {p : Deed → Bool} (once : OncePerLeaf p) (ending : Ending) :
    (lastLook ending).countP p = 0 := by
  rcases ending with (_ | _ | _) | (_ | _ | _ | _ | _) | _ <;> simp [lastLook, once.look]

/-- What has happened of a leaf that is not carried out yet. -/
def unfinished (op : Op) (given : Bool) : List Deed :=
  [.looked, .told (.step op.block)] ++ if given then [.given op] else []

theorem looks_unfinished (op : Op) (given : Bool) :
    (unfinished op given).countP Deed.isLook = 1 := by
  cases given <;> rfl

theorem OncePerLeaf.countP_unfinished {p : Deed → Bool} (once : OncePerLeaf p) (op : Op)
    (given : Bool) : (unfinished op given).countP p ≤ 1 := by
  have part : unfinished op given <+: played op := by
    cases given with
    | false => exact ⟨[.given op, .applied op], rfl⟩
    | true => exact ⟨[.applied op], rfl⟩
  rw [← once.play op]
  exact part.sublist.countP_le

theorem countP_story {p : Deed → Bool} (once : OncePerLeaf p) (ending : Ending) (leaves : List Op) :
    (story ending leaves).countP p = leaves.length := by
  simp [story, countP_begun once.opening once.play, once.countP_lastLook, once.closing, once.last]

theorem looks_story (ending : Ending) (leaves : List Op) :
    (story ending leaves).countP Deed.isLook =
      leaves.length + (lastLook ending).countP Deed.isLook := by
  have silent : (closed ending).countP Deed.isLook = 0 := rfl
  simp [story, looks_begun, silent, Deed.isLook]

variable {game : Game σ} {limit : Nat}

theorem step_of_ne_check {s : Session σ} (elsewhere : s.stage ≠ .check) (seen : Bool) :
    s.step game limit seen = s.step game limit false := by
  unfold step
  split
  case h_3 stage => exact absurd stage elsewhere
  all_goals rfl

/-- A run that nobody asks to stop goes through its next stage first. -/
theorem run_step_false (s : Session σ) :
    (s.step game limit false).run game limit (fun _ _ => false) =
      s.run game limit fun _ _ => false := by
  cases finished : s.ending? with
  | none => rw [run_step finished]
  | some ending => rw [step_ended (stage_of_ending? finished)]

theorem settled_status_ne_cancelled {block : BlockId} {result : Except Fault Outcome} {ending : Ending}
    (decided : settled block result = some ending) : ending.status ≠ .cancelled := by
  rcases result with (_ | _) | (_ | _ | _) <;> cases decided <;> simp [Ending.status]

theorem cancelled_of_step {s : Session σ} (cancelled : (s.step game limit false).status = .cancelled) :
    s.status = .cancelled := by
  have went := stepped game limit false s
  generalize s.step game limit false = after at went cancelled
  cases went with
  | stopped stage seen => cases seen
  | start | ready | unready | finished | spent | fetched | announced | carried => cases cancelled
  | settled op stage ending decided => exact absurd cancelled (settled_status_ne_cancelled decided)
  | reported ending stage => simpa [status, tell, stage] using cancelled
  | stayed => exact cancelled

theorem run_status_ne_cancelled {s : Session σ} (before : s.status ≠ .cancelled) :
    (s.run game limit fun _ _ => false).status ≠ .cancelled := by
  fun_induction Session.run game limit (fun _ _ => false) s with
  | case1 s going ih => exact ih fun after => before (cancelled_of_step after)
  | case2 s finished => exact before

theorem stage_of_terminal {s : Session σ} (terminal : s.status.isTerminal) :
    (∃ ending, s.stage = .report ending) ∨ ∃ ending, s.stage = .ended ending := by
  cases stage : s.stage with
  | report ending => exact .inl ⟨ending, rfl⟩
  | ended ending => exact .inr ⟨ending, rfl⟩
  | start | reset | check | announce | apply => simp [status, stage, Status.isTerminal] at terminal

/-- A run stays at its end, whatever it sees. -/
theorem status_step_of_terminal {s : Session σ} (terminal : s.status.isTerminal) (seen : Bool) :
    (s.step game limit seen).status = s.status := by
  rcases stage_of_terminal terminal with ⟨ending, stage⟩ | ⟨ending, stage⟩ <;>
    simp [step, stage, status, tell, record]

/-- A stage goes on from what it begins with, and does not look again. -/
theorem past_step_opening (game : Game σ) (limit : Nat) (seen : Bool) (s : Session σ) :
    ∃ later, (s.step game limit seen).past = s.past ++ s.stage.opening ++ later ∧
      later.countP Deed.isLook = 0 := by
  have went := stepped game limit seen s
  generalize s.step game limit seen = after at went ⊢
  have looked (cursor : Cursor) : { s.record .looked with cursor := cursor }.past = s.past ++ [.looked] :=
    past_record s .looked
  cases went with
  | stayed _ stage | fetched stage => exact ⟨[], by simp [past, record, stage, Stage.opening], rfl⟩
  | start stage => exact ⟨opened, by simp [stage, Stage.opening, opened], rfl⟩
  | ready stage => exact ⟨[.reset], by simp [past, called, record, stage, Stage.opening], rfl⟩
  | unready stage fault =>
    refine ⟨.reset :: closed (.failed (Session.unready fault)), ?_, rfl⟩
    simp [past_finish, stage, Stage.opening]
  | stopped stage =>
    refine ⟨closed .cancelled, ?_, rfl⟩
    simp [past_finish, stage, Stage.opening]
  | finished stage =>
    refine ⟨closed (.completed .finished), ?_, rfl⟩
    rw [past_finish, looked, stage, Stage.opening]
  | spent stage =>
    refine ⟨closed (.failed (.stepLimit limit)), ?_, rfl⟩
    rw [past_finish, looked, stage, Stage.opening]
  | announced op stage => exact ⟨[.told (.step op.block)], by simp [stage, Stage.opening], rfl⟩
  | carried op stage => exact ⟨[.applied op], by simp [past, called, record, stage, Stage.opening], rfl⟩
  | settled op stage ending =>
    refine ⟨.applied op :: closed ending, ?_, rfl⟩
    simp [past_finish, stage, Stage.opening]
  | reported ending stage =>
    refine ⟨[.told (Event.last ending)], ?_, rfl⟩
    simp [stage, Stage.opening]

theorem patience_step {s : Session σ} {seen : Bool} (sees : s.stage = .check → seen = true) :
    (s.step game limit seen).stage.patience ≤ s.stage.patience - 2 := by
  have went := stepped game limit seen s
  generalize s.step game limit seen = after at went ⊢
  cases went with
  | finished stage unseen | spent stage unseen | fetched stage unseen =>
    rw [sees stage] at unseen
    cases unseen
  | start stage | ready stage | unready stage | stopped stage | announced _ stage | carried _ stage
  | settled _ stage | reported _ stage | stayed _ stage =>
    rw [stage]
    exact Nat.le_of_ble_eq_true rfl

end Session

namespace Hosted

open Session

variable {σ : Type} {game : Game σ} {limit : Nat}

theorem account_act {leaves : List Op} {x : Hosted σ} (account : Account leaves x.session) (a : Act) :
    Account leaves (x.act game limit a).session := by
  cases a with
  | ask => exact account
  | go =>
    simp only [Hosted.act, go]
    split
    next => exact account
    next seen _ => exact account.step game limit seen

theorem account_play {leaves : List Op} {x : Hosted σ} (account : Account leaves x.session)
    (acts : List Act) : Account leaves (x.play game limit acts).session := by
  induction acts generalizing x with
  | nil => exact account
  | cons a acts ih => exact ih (account_act account a)

theorem trace_of_ended {leaves : List Op} {x : Hosted σ} {ending : Ending}
    (account : Account leaves x.session) (finished : x.session.ending? = some ending) :
    x.trace = story ending (leaves.take x.session.steps) ∧ x.session.steps ≤ leaves.length := by
  obtain ⟨past, within⟩ := account.of_ended finished
  refine ⟨?_, within⟩
  rw [trace, stage_of_ending? finished, past]
  simp [Stage.opening]

/-- Each look but the last is followed by a leaf, and so is the last one while nothing has come of it. -/
theorem tally {leaves : List Op} {x : Hosted σ} {p : Deed → Bool}
    (account : Account leaves x.session) (once : OncePerLeaf p) :
    x.trace.countP p ≤ x.trace.countP Deed.isLook ∧
    x.trace.countP Deed.isLook ≤ x.trace.countP p + 1 ∧
    (x.session.stage = .check ∧ x.underway.isSome ∨ x.session.status = .cancelled →
      x.trace.countP Deed.isLook = x.trace.countP p + 1) := by
  have counted := countP_begun once.opening once.play
  rw [trace]
  cases account with
  | start stage _ _ past => simp [past, stage, Stage.opening, status]
  | reset stage _ _ past =>
    have opens : opened.countP p = 0 := by
      have whole := once.opening
      rw [begun, List.countP_append] at whole
      exact (Nat.add_eq_zero_iff.mp whole).1
    have blind : opened.countP Deed.isLook = 0 := rfl
    simp [past, stage, Stage.opening, status, opens, blind]
  | check done stage _ _ past =>
    cases x.underway <;>
      simp [past, stage, Stage.opening, status, counted, looks_begun, once.look, Deed.isLook]
  | announce done op stage _ _ past =>
    simp [past, stage, Stage.opening, status, counted, looks_begun, once.look, Deed.isLook]
  | apply done op stage _ _ past =>
    have happened : x.session.past ++ (if x.underway.isSome then x.session.stage.opening else []) =
        begun done ++ unfinished op x.underway.isSome := by
      rw [past, stage, List.append_assoc]
      rfl
    have few := once.countP_unfinished op x.underway.isSome
    rw [happened, List.countP_append, List.countP_append, counted, looks_begun, looks_unfinished]
    refine ⟨by omega, by omega, ?_⟩
    rintro (⟨check, _⟩ | cancelled)
    · rw [stage] at check
      cases check
    · simp [status, stage] at cancelled
  | report done rest ending stage _ _ past =>
    obtain ⟨few, last⟩ := looks_lastLook ending
    have silent : (closed ending).countP Deed.isLook = 0 := rfl
    simp only [past, stage, Stage.opening, status, ite_self, List.append_nil, List.countP_append, counted,
      looks_begun, once.countP_lastLook, once.closing, silent]
    refine ⟨by omega, by omega, ?_⟩
    rintro (⟨check, _⟩ | cancelled)
    · cases check
    · rw [last cancelled]
  | ended done rest ending stage _ _ past =>
    obtain ⟨few, last⟩ := looks_lastLook ending
    simp only [past, stage, Stage.opening, status, ite_self, List.append_nil, countP_story once, looks_story]
    refine ⟨by omega, by omega, ?_⟩
    rintro (⟨check, _⟩ | cancelled)
    · cases check
    · rw [last cancelled]

theorem ask_of_asked {x : Hosted σ} (asked : x.asked = true) : x.act game limit .ask = x := by
  cases x
  cases asked
  rfl

theorem asked_act {x : Hosted σ} (asked : x.asked = true) (game : Game σ) (limit : Nat) (a : Act) :
    (x.act game limit a).asked = true := by
  cases a with
  | ask => rfl
  | go =>
    simp only [act, go]
    split <;> exact asked

/-- To ask once more changes nothing. -/
theorem play_filter {x : Hosted σ} (asked : x.asked = true) (acts : List Act) :
    x.play game limit (acts.filter (· = .go)) = x.play game limit acts := by
  induction acts generalizing x with
  | nil => rfl
  | cons a acts ih =>
    have later := ih (asked_act asked game limit a)
    cases a with
    | go => exact later
    | ask =>
      rw [ask_of_asked asked] at later
      simpa [play, ask_of_asked asked] using later

/-- A turn of the run begins a stage, or it adds to what has been done in it, without a look. -/
theorem trace_go (game : Game σ) (limit : Nat) (x : Hosted σ) :
    ∃ later, (x.go game limit).trace = x.trace ++ later ∧
      later.countP Deed.isLook = if x.underway.isSome then 0 else x.session.stage.opening.countP Deed.isLook := by
  obtain ⟨session, asked, underway⟩ := x
  cases underway with
  | none => exact ⟨session.stage.opening, by simp [trace, go], rfl⟩
  | some seen =>
    obtain ⟨later, past, blind⟩ := past_step_opening game limit seen session
    refine ⟨later, ?_, blind⟩
    simp [trace, go, past]

theorem trace_act (game : Game σ) (limit : Nat) (x : Hosted σ) (a : Act) :
    ∃ later, (x.act game limit a).trace = x.trace ++ later := by
  cases a with
  | ask => exact ⟨[], (List.append_nil _).symm⟩
  | go =>
    obtain ⟨later, more, -⟩ := trace_go game limit x
    exact ⟨later, more⟩

theorem trace_play (game : Game σ) (limit : Nat) (x : Hosted σ) (acts : List Act) :
    ∃ later, (x.play game limit acts).trace = x.trace ++ later := by
  induction acts generalizing x with
  | nil => exact ⟨[], (List.append_nil _).symm⟩
  | cons a acts ih =>
    obtain ⟨more, first⟩ := trace_act game limit x a
    obtain ⟨later, rest⟩ := ih (x.act game limit a)
    exact ⟨more ++ later, by rw [← List.append_assoc, ← first]; exact rest⟩

def patience (x : Hosted σ) : Nat :=
  match x.underway, x.session.stage with
  | none, stage => stage.patience
  | some false, .check => 9
  | some _, stage => stage.patience - 1

theorem patience_le (x : Hosted σ) : x.patience ≤ 9 := by
  unfold patience
  split
  next => exact Nat.le_succ_of_le x.session.stage.patience_le
  next => exact Nat.le_refl 9
  next => exact Nat.le_trans (Nat.sub_le _ 1) (Nat.le_succ_of_le x.session.stage.patience_le)

theorem ended_of_patience {x : Hosted σ} (none : x.patience = 0) : x.session.ending?.isSome := by
  have little : x.session.stage.patience ≤ 1 := by
    unfold patience at none
    split at none
    next => exact Nat.le_succ_of_le (Nat.le_of_eq none)
    next => cases none
    next => exact Nat.sub_eq_zero_iff_le.mp none
  obtain ⟨ending, stage⟩ := Stage.ended_of_patience little
  simp [ending?, stage]

theorem patience_go {x : Hosted σ} (asked : x.asked = true) :
    (x.go game limit).patience ≤ x.patience - 1 := by
  obtain ⟨session, _, underway⟩ := x
  cases asked
  cases underway with
  | none => exact Nat.le_refl _
  | some seen =>
    have stepped : ((⟨session, true, some seen⟩ : Hosted σ).go game limit).patience =
        (session.step game limit seen).stage.patience := rfl
    rw [stepped]
    unfold patience
    split
    next idle => cases idle
    next => exact Stage.patience_le _
    next same other =>
      cases same
      exact patience_step fun check => eq_true_of_ne_false (other check)

theorem patience_play {x : Hosted σ} (asked : x.asked = true) (acts : List Act) :
    (x.play game limit acts).patience ≤ x.patience - acts.count .go := by
  induction acts generalizing x with
  | nil => exact Nat.le_refl _
  | cons a acts ih =>
    have later := ih (asked_act asked game limit a)
    cases a with
    | ask =>
      rw [ask_of_asked asked] at later
      simpa [play, ask_of_asked asked] using later
    | go =>
      have first : (x.act game limit .go).patience ≤ x.patience - 1 := patience_go asked
      simp only [List.count_cons_self]
      refine Nat.le_trans later ?_
      omega

/-- A run that nobody has asked to stop: it comes to the same end as by itself. -/
structure Unasked (game : Game σ) (limit : Nat) (alone : Session σ) (x : Hosted σ) : Prop where
  unasked : x.asked = false
  blind : x.underway ≠ some true
  onward : x.session.run game limit (fun _ _ => false) = alone

theorem Unasked.new (ops : List Op) (state : σ) :
    Unasked game limit ((Session.new ops state).run game limit fun _ _ => false)
      (Hosted.new ops state) :=
  ⟨rfl, by simp [Hosted.new], rfl⟩

theorem Unasked.play {alone : Session σ} {x : Hosted σ} (quiet : Unasked game limit alone x)
    {acts : List Act} (never : .ask ∉ acts) : Unasked game limit alone (x.play game limit acts) := by
  induction acts generalizing x with
  | nil => exact quiet
  | cons a acts ih =>
    have others : .ask ∉ acts := fun present => never (.tail a present)
    cases a with
    | ask => exact absurd (.head acts) never
    | go =>
      refine ih ?_ others
      obtain ⟨session, _, underway⟩ := x
      obtain ⟨unasked, blind, onward⟩ := quiet
      cases unasked
      cases underway with
      | none => exact ⟨rfl, by simp [act, go], onward⟩
      | some seen =>
        cases seen with
        | true => exact absurd rfl blind
        | false => exact ⟨rfl, by simp [act, go], (run_step_false session).trans onward⟩

/-- Where a run stands after it has been asked to stop, when it had looked so many times before. It has
not looked again, or it has seen the request, or it is cancelled. -/
inductive Heeding (game : Game σ) (limit looks : Nat) (alone : Session σ) (x : Hosted σ) : Prop where
  | unseen (onward : x.session.run game limit (fun _ _ => false) = alone)
      (count : x.trace.countP Deed.isLook = looks)
      (blind : x.session.stage = .check → x.underway ≠ some true)
  | seen (stage : x.session.stage = .check) (underway : x.underway = some true)
      (count : x.trace.countP Deed.isLook = looks + 1)
  | obeyed (cancelled : x.session.status = .cancelled)
      (count : x.trace.countP Deed.isLook = looks + 1)

theorem looks_opening {stage : Stage} (elsewhere : stage ≠ .check) : stage.opening.countP Deed.isLook = 0 := by
  cases stage with
  | check => exact absurd rfl elsewhere
  | start | reset | announce | apply | report | ended => rfl

theorem looks_go (game : Game σ) (limit : Nat) (x : Hosted σ) :
    (x.go game limit).trace.countP Deed.isLook = x.trace.countP Deed.isLook +
      if x.underway.isSome then 0 else x.session.stage.opening.countP Deed.isLook := by
  obtain ⟨later, more, looks⟩ := trace_go game limit x
  rw [more, List.countP_append, looks]

theorem Heeding.go {looks : Nat} {alone : Session σ} {x : Hosted σ} (asked : x.asked = true)
    (heeding : Heeding game limit looks alone x) : Heeding game limit looks alone (x.go game limit) := by
  have looks := looks_go game limit x
  obtain ⟨session, _, underway⟩ := x
  cases asked
  cases heeding with
  | unseen onward count blind =>
    dsimp only at onward looks blind
    rw [count] at looks
    by_cases stage : session.stage = .check
    · cases underway with
      | none =>
        rw [stage] at looks
        exact .seen stage rfl looks
      | some seen =>
        cases seen with
        | true => exact absurd rfl (blind stage)
        | false => exact .unseen ((run_step_false session).trans onward) looks (by simp [Hosted.go])
    · rw [looks_opening stage, ite_self] at looks
      cases underway with
      | none => exact .unseen onward looks (fun check => absurd check stage)
      | some seen =>
        refine .unseen ?_ looks (by simp [Hosted.go])
        rw [← onward, ← run_step_false session, ← step_of_ne_check stage seen]
        rfl
  | seen stage underway count =>
    dsimp only at stage underway
    cases underway
    refine .obeyed ?_ (looks.trans count)
    simp [Hosted.go, step, stage, finish, enter, Session.tell, record, status, Ending.status]
  | obeyed cancelled count =>
    dsimp only at cancelled looks
    have elsewhere : session.stage ≠ .check := by
      intro check
      simp [status, check] at cancelled
    rw [looks_opening elsewhere, ite_self] at looks
    refine .obeyed ?_ (looks.trans count)
    have terminal : session.status.isTerminal := by rw [cancelled]; rfl
    cases underway with
    | none => exact cancelled
    | some seen => exact (status_step_of_terminal terminal seen).trans cancelled

theorem Heeding.play {looks : Nat} {alone : Session σ} {x : Hosted σ} (asked : x.asked = true)
    (heeding : Heeding game limit looks alone x) (acts : List Act) :
    Heeding game limit looks alone (x.play game limit acts) := by
  induction acts generalizing x with
  | nil => exact heeding
  | cons a acts ih =>
    refine ih (asked_act asked game limit a) ?_
    cases a with
    | ask =>
      rw [ask_of_asked asked]
      exact heeding
    | go => exact heeding.go asked

theorem Heeding.few {looks : Nat} {alone : Session σ} {leaves : List Op} {x : Hosted σ}
    {p : Deed → Bool} (heeding : Heeding game limit looks alone x) (account : Account leaves x.session)
    (once : OncePerLeaf p) : x.trace.countP p ≤ looks := by
  obtain ⟨few, _, last⟩ := tally account once
  cases heeding with
  | unseen _ count => rwa [count] at few
  | seen stage underway count =>
    have most := last (.inl ⟨stage, by rw [underway]; rfl⟩)
    omega
  | obeyed cancelled count =>
    have most := last (.inr cancelled)
    omega

/-- Two runs at their end that differ in nothing but in who has asked them to stop. -/
structure Alike (x y : Hosted σ) : Prop where
  session : x.session = y.session
  underway : x.underway.isSome = y.underway.isSome
  terminal : x.session.status.isTerminal

theorem Alike.trace {x y : Hosted σ} (alike : Alike x y) : x.trace = y.trace := by
  rw [Hosted.trace, Hosted.trace, alike.session, alike.underway]

theorem Alike.go {x y : Hosted σ} (alike : Alike x y) : Alike (x.go game limit) (y.go game limit) := by
  obtain ⟨session, asked, underway⟩ := x
  obtain ⟨_, other, still⟩ := y
  obtain ⟨rfl, both, terminal⟩ := alike
  dsimp only at both terminal
  cases underway with
  | none =>
    obtain rfl : still = none := by simpa using both.symm
    exact ⟨rfl, rfl, terminal⟩
  | some seen =>
    obtain ⟨sees, rfl⟩ := Option.isSome_iff_exists.mp both.symm
    have elsewhere : session.stage ≠ .check := by
      intro check
      simp [status, check, Status.isTerminal] at terminal
    have same : session.step game limit seen = session.step game limit sees := by
      rw [step_of_ne_check elsewhere seen, step_of_ne_check elsewhere sees]
    refine ⟨same, rfl, ?_⟩
    simp only [Hosted.go, status_step_of_terminal terminal, terminal]

theorem Alike.play {x y : Hosted σ} (alike : Alike x y) (acts : List Act) :
    Alike (x.play game limit acts) (y.play game limit (acts.filter (· = .go))) := by
  induction acts generalizing x y with
  | nil => exact alike
  | cons a acts ih =>
    cases a with
    | ask => exact ih ⟨alike.session, alike.underway, alike.terminal⟩
    | go => exact ih alike.go

/-- A run that was asked to stop is cancelled by the next look, or it ends without one. -/
theorem Heeding.of_ended {looks : Nat} {start : Session σ} {leaves : List Op} {x : Hosted σ}
    {ending : Ending} (idle : start.status ≠ .cancelled)
    (heeding : Heeding game limit looks (start.run game limit fun _ _ => false) x)
    (account : Account leaves x.session) (finished : x.session.ending? = some ending) :
    x.session.steps = x.trace.countP Deed.isStep ∧
      (ending = .cancelled ∧ x.session.steps = looks ∨
        ending ≠ .cancelled ∧ x.trace.countP Deed.isLook = looks ∧
          x.session = start.run game limit fun _ _ => false) := by
  obtain ⟨trace, within⟩ := trace_of_ended account finished
  have count : x.session.steps = x.trace.countP Deed.isStep := by
    rw [trace, countP_story oncePerLeaf_isStep, List.length_take_of_le within]
  refine ⟨count, ?_⟩
  have stage := stage_of_ending? finished
  cases heeding with
  | unseen onward same =>
    rw [run_ended finished] at onward
    refine .inr ⟨?_, same, onward⟩
    rintro rfl
    have undisturbed : (start.run game limit fun _ _ => false).status ≠ .cancelled :=
      run_status_ne_cancelled idle
    rw [← onward] at undisturbed
    exact undisturbed (by simp [status, stage, Ending.status])
  | seen check =>
    rw [stage] at check
    cases check
  | obeyed cancelled more =>
    obtain ⟨-, -, last⟩ := tally account oncePerLeaf_isStep
    have all := last (.inr cancelled)
    refine .inl ⟨?_, by omega⟩
    cases ending <;> simp [status, stage, Ending.status] at cancelled
    rfl

/-- In whatever order they take their turns, a run heeds the first request to stop. It plays at most one
more leaf, and none if it had not looked before. It is over soon: cancelled, with a step for each look it
had had before, or else without a further look and as if nobody had asked. A request that comes later, or
after the end of the run, changes nothing. -/
theorem stop_is_heeded (game : Game σ) (limit : Nat) (ops : List Op) (state : σ) {before : List Act}
    (first : .ask ∉ before) (after : List Act) :
    let x := (Hosted.new ops state).play game limit before
    let y := x.play game limit (.ask :: after)
    let looks := x.trace.countP Deed.isLook
    (∃ later, y.trace = x.trace ++ later ∧
      ∀ p ∈ [Deed.isStep, Deed.isGiven, Deed.isCarriedOut],
        later.countP p ≤ 1 ∧ (looks = 0 → later.countP p = 0)) ∧
    (∀ ending, y.session.ending? = some ending →
      y.trace = story ending ((Op.unrolls ops).take y.session.steps) ∧
      y.session.steps = y.trace.countP Deed.isStep ∧
      (ending = .cancelled ∧ y.session.steps = looks ∨
        ending ≠ .cancelled ∧ y.trace.countP Deed.isLook = looks ∧
          y.session = (Session.new ops state).run game limit fun _ _ => false)) ∧
    (9 ≤ after.count .go → y.session.ending?.isSome) ∧
    y = x.play game limit (.ask :: after.filter (· = .go)) ∧
    (x.session.status.isTerminal →
      y.session = (x.play game limit (after.filter (· = .go))).session ∧
      y.trace = (x.play game limit (after.filter (· = .go))).trace) := by
  intro x y looks
  have quiet : Unasked game limit ((Session.new ops state).run game limit fun _ _ => false) x :=
    (Unasked.new ops state).play first
  have past : Account (Op.unrolls ops) x.session := account_play (.new ops state) before
  have account : Account (Op.unrolls ops) y.session := account_play past (.ask :: after)
  have heeding : Heeding game limit looks _ y :=
    .play (x := x.act game limit .ask) rfl (.unseen quiet.onward rfl fun _ => quiet.blind) after
  refine ⟨?_, fun ending finished => ?_, fun enough => ?_, ?_, fun terminal => ?_⟩
  · obtain ⟨later, trace⟩ : ∃ later, y.trace = x.trace ++ later :=
      trace_play game limit x (.ask :: after)
    have bounds (p : Deed → Bool) (once : OncePerLeaf p) :
        later.countP p ≤ 1 ∧ (looks = 0 → later.countP p = 0) := by
      have few := heeding.few account once
      have many : looks ≤ x.trace.countP p + 1 := (tally past once).2.1
      rw [trace, List.countP_append] at few
      omega
    refine ⟨later, trace, ?_⟩
    simp only [List.forall_mem_cons]
    exact ⟨bounds _ oncePerLeaf_isStep, bounds _ oncePerLeaf_isGiven,
      bounds _ oncePerLeaf_isCarriedOut, by simp⟩
  · have idle : (Session.new ops state).status ≠ .cancelled := by simp [status, Session.new]
    exact ⟨(trace_of_ended account finished).1, heeding.of_ended idle account finished⟩
  · have spent : y.patience ≤ (x.act game limit .ask).patience - after.count .go :=
      patience_play rfl after
    have most := (x.act game limit .ask).patience_le
    exact ended_of_patience (by omega)
  · exact (play_filter (x := x.act game limit .ask) rfl after).symm
  · have alike : Alike (x.act game limit .ask) x := ⟨rfl, rfl, terminal⟩
    exact ⟨(alike.play after).session, (alike.play after).trace⟩

/-- The request comes while the first look is under way, which does not see it any more. -/
theorem stop_is_heeded_twice :
    let before := List.replicate 5 Act.go
    let after := List.replicate 9 Act.go
    let x := (Hosted.new twice 7).play counter 5 before
    let y := x.play counter 5 (.ask :: after)
    .ask ∉ before ∧ x.trace.countP Deed.isLook = 1 ∧ 9 ≤ after.count .go ∧
      y.session.ending? = some .cancelled ∧ y.session.steps = 1 := by
  intro before after x y
  have first : .ask ∉ before := by decide
  have one : x.trace.countP Deed.isLook = 1 := rfl
  have enough : 9 ≤ after.count .go := by decide
  obtain ⟨-, outcome, soon, -⟩ := stop_is_heeded counter 5 twice 7 first after
  obtain ⟨ending, finished⟩ := Option.isSome_iff_exists.mp (soon enough)
  refine ⟨first, one, enough, ?_⟩
  obtain ⟨trace, -, ⟨rfl, steps⟩ | ⟨-, looks, alone⟩⟩ := outcome ending finished
  · exact ⟨finished, steps.trans one⟩
  · have two : y.session.steps = 2 := by
      rw [alone]
      exact (run_meets_start twice 7).2.1
    have leaves : ((Op.unrolls twice).take 2).length = 2 := rfl
    rw [trace, two, looks_story, one, leaves] at looks
    omega

end Hosted

end BlockPlay

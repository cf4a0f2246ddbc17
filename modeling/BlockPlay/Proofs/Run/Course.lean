import BlockPlay.Proofs.Run.Fold

/-!
The course of a run, leaf by leaf. All leaves that a run starts but the last one are answered with a word
to go on; the last one ends the run, or the run is asked to stop, has no leaf left, or has used up its
steps. What a game does in a run is told by the states before and after each leaf.
-/
namespace BlockPlay.Session

variable {σ : Type}

/-- The state that instructions leave behind, whatever the game says to them. -/
def carried (game : Game σ) (ops : List Op) (state : σ) : σ :=
  ops.foldl (fun state op => (game.apply op state).state) state

/-- The state that so many leaves leave behind. -/
def stateAfter (game : Game σ) (leaves : List Op) (first : σ) (k : Nat) : σ :=
  carried game (leaves.take k) first

/-- The leaf with a number goes on to the next one. -/
def GoesOn (game : Game σ) (leaves : List Op) (first : σ) (k : Nat) : Prop :=
  ∀ op, leaves[k]? = some op → (game.apply op (stateAfter game leaves first k)).result = .ok .ongoing

/-- How the leaves of a program come to an end of a run. -/
structure Course (game : Game σ) (limit : Nat) (stop : Nat → Nat → Bool) (leaves : List Op) (first : σ)
    (upshot : Upshot σ) : Prop where
  within : upshot.steps ≤ leaves.length
  allowed : upshot.steps ≤ limit
  state : upshot.state = stateAfter game leaves first upshot.steps
  goesOn : ∀ k, k + 1 < upshot.steps → GoesOn game leaves first k
  last :
    (∃ k op, upshot.steps = k + 1 ∧ leaves[k]? = some op ∧
      settled op.block (game.apply op (stateAfter game leaves first k)).result = some upshot.ending) ∨
    (∀ k < upshot.steps, GoesOn game leaves first k) ∧
      (upshot.ending = .cancelled ∧ (∃ clock, stop upshot.steps clock) ∨
        upshot.ending = .completed .finished ∧ upshot.steps = leaves.length ∨
        upshot.ending = .failed (.stepLimit limit) ∧ upshot.steps = limit)

variable {game : Game σ} {limit : Nat} {stop : Nat → Nat → Bool} {leaves : List Op} {first : σ}

/-- What each instruction keeps, all of them keep together. -/
theorem carried_keeps {holds : σ → Prop}
    (keeps : ∀ op state, holds state → holds (game.apply op state).state) (ops : List Op) {state : σ}
    (here : holds state) : holds (carried game ops state) := by
  induction ops generalizing state with
  | nil => exact here
  | cons op ops ih => exact ih (keeps op state here)

theorem carried_concat (done : List Op) (op : Op) :
    carried game (done ++ [op]) first = (game.apply op (carried game done first)).state := by
  rw [carried, List.foldl_append]
  rfl

theorem stateAfter_succ {k : Nat} {op : Op} (leaf : leaves[k]? = some op) :
    stateAfter game leaves first (k + 1) = (game.apply op (stateAfter game leaves first k)).state := by
  rw [stateAfter, List.take_add_one, leaf, Option.toList_some, carried_concat]
  rfl

theorem stateAfter_append (done rest : List Op) :
    stateAfter game (done ++ rest) first done.length = carried game done first := by
  rw [stateAfter, List.take_left]

theorem settled_eq_none_iff {block : BlockId} {result : Except Fault Outcome} :
    settled block result = none ↔ result = .ok .ongoing := by
  rcases result with (_ | _) | (_ | _ | _) <;> simp [settled]

theorem won_of_settled {block : BlockId} {result : Except Fault Outcome} {message : String}
    (decided : settled block result = some (.completed (.won message))) : result = .ok (.won message) := by
  rcases result with (_ | _) | (_ | _ | _) <;> cases decided
  rfl

theorem lost_of_settled {block : BlockId} {result : Except Fault Outcome} {message : String}
    (decided : settled block result = some (.completed (.lost message))) : result = .ok (.lost message) := by
  rcases result with (_ | _) | (_ | _ | _) <;> cases decided
  rfl

theorem settled_ne_finished (block : BlockId) (result : Except Fault Outcome) :
    settled block result ≠ some (.completed .finished) := by
  rcases result with (_ | _) | (_ | _ | _) <;> simp [settled]

theorem fold_course (game : Game σ) (limit : Nat) (stop : Nat → Nat → Bool) (first : σ)
    (done rest : List Op) (clock : Nat) (allowed : done.length ≤ limit)
    (goesOn : ∀ k < done.length, GoesOn game (done ++ rest) first k) :
    Course game limit stop (done ++ rest) first
      (fold game limit stop rest done.length clock (carried game done first)) := by
  -- The leaves move one by one from those to come to those that are done.
  induction rest generalizing done clock with
  | nil =>
    have here : carried game done first = stateAfter game (done ++ []) first done.length :=
      (stateAfter_append done []).symm
    have all : done.length = (done ++ []).length := by rw [List.append_nil]
    have earlier (k : Nat) (before : k + 1 < done.length) := goesOn k (Nat.lt_of_succ_lt before)
    rw [fold]
    split
    next stopped =>
      exact ⟨Nat.le_of_eq all, allowed, here, earlier, .inr ⟨goesOn, .inl ⟨rfl, clock, stopped⟩⟩⟩
    next => exact ⟨Nat.le_of_eq all, allowed, here, earlier, .inr ⟨goesOn, .inr (.inl ⟨rfl, all⟩)⟩⟩
  | cons op rest ih =>
    have here : carried game done first = stateAfter game (done ++ op :: rest) first done.length :=
      (stateAfter_append done (op :: rest)).symm
    have leaf : (done ++ op :: rest)[done.length]? = some op := by simp
    have room : done.length + 1 ≤ (done ++ op :: rest).length := by simp
    have earlier (k : Nat) (before : k + 1 < done.length) := goesOn k (Nat.lt_of_succ_lt before)
    rw [fold]
    split
    next stopped =>
      exact ⟨Nat.le_of_succ_le room, allowed, here, earlier, .inr ⟨goesOn, .inl ⟨rfl, clock, stopped⟩⟩⟩
    next =>
      split
      next spent =>
        have all : done.length = limit := Nat.le_antisymm allowed spent
        exact ⟨Nat.le_of_succ_le room, allowed, here, earlier, .inr ⟨goesOn, .inr (.inr ⟨rfl, all⟩)⟩⟩
      next unspent =>
        have another : done.length + 1 ≤ limit := Nat.lt_of_not_le unspent
        rw [here]
        cases decided : settled op.block
            (game.apply op (stateAfter game (done ++ op :: rest) first done.length)).result with
        | some ending =>
          refine ⟨room, another, (stateAfter_succ leaf).symm, fun k before => ?_,
            .inl ⟨_, op, rfl, leaf, decided⟩⟩
          exact goesOn k (Nat.lt_of_succ_lt_succ before)
        | none =>
          have moved : done ++ [op] ++ rest = done ++ op :: rest := List.append_assoc done [op] rest
          have longer : (done ++ [op]).length = done.length + 1 := List.length_append
          have onward : ∀ k < (done ++ [op]).length, GoesOn game (done ++ [op] ++ rest) first k := by
            intro k before
            rw [moved]
            rcases Nat.lt_succ_iff_lt_or_eq.mp (longer ▸ before) with old | rfl
            · exact goesOn k old
            · intro last found
              obtain rfl : op = last := Option.some.inj (leaf.symm.trans found)
              exact settled_eq_none_iff.mp decided
          have later := ih (done ++ [op]) (clock + (game.apply op (carried game done first)).millis)
            (longer ▸ another) onward
          rw [moved, longer, carried_concat, here] at later
          exact later

theorem run_course (game : Game σ) (limit : Nat) (stop : Nat → Nat → Bool) (ops : List Op) (state : σ)
    (ready : (game.reset state).result = .ok ()) {last : Session σ}
    (ran : last = (new ops state).run game limit stop) :
    last.applied = (Op.unrolls ops).take last.steps ∧ ∃ ending, last.ending? = some ending ∧
      Course game limit stop (Op.unrolls ops) (game.reset state).state ⟨ending, last.steps, last.game⟩ := by
  have meets : Meets ((new ops state).run game limit stop) _ _ := run_meets_start ops state
  obtain ⟨ending, steps, left, applied⟩ := ran ▸ meets
  refine ⟨by rw [applied, steps], _, ending, ?_⟩
  rw [steps, left, reference, ready]
  exact fold_course game limit stop (game.reset state).state [] (Op.unrolls ops) (game.reset state).millis
    (Nat.zero_le limit) fun k before => absurd before (Nat.not_lt_zero k)

namespace Course

variable {upshot : Upshot σ}

/-- The leaf that a run ends with, if a leaf ends it. -/
theorem settles (course : Course game limit stop leaves first upshot) {k : Nat} {op : Op}
    (started : k < upshot.steps) (leaf : leaves[k]? = some op) {ending : Ending}
    (ends : settled op.block (game.apply op (stateAfter game leaves first k)).result = some ending) :
    upshot.steps = k + 1 ∧ upshot.ending = ending := by
  -- All leaves but the last one go on.
  have stuck : ¬ GoesOn game leaves first k := by
    intro goesOn
    rw [goesOn op leaf] at ends
    cases ends
  rcases course.last with ⟨j, last, steps, found, decided⟩ | ⟨goesOn, -⟩
  · have same : k = j := by
      rcases Nat.lt_or_ge k j with before | after
      · exact absurd (course.goesOn k (by omega)) stuck
      · omega
    subst same
    obtain rfl : op = last := Option.some.inj (leaf.symm.trans found)
    exact ⟨steps, Option.some.inj (decided.symm.trans ends)⟩
  · exact absurd (goesOn k started) stuck

/-- A leaf is started unless the steps are used up or an earlier leaf has ended the run. -/
theorem started_iff (course : Course game limit (fun _ _ => false) leaves first upshot) {k : Nat} :
    k < upshot.steps ↔ k < leaves.length ∧ k < limit ∧ ∀ j < k, GoesOn game leaves first j := by
  constructor
  · intro started
    refine ⟨Nat.lt_of_lt_of_le started course.within, Nat.lt_of_lt_of_le started course.allowed, ?_⟩
    exact fun j before => course.goesOn j (by omega)
  · rintro ⟨present, room, goesOn⟩
    refine Nat.lt_of_not_le fun unstarted => ?_
    rcases course.last with ⟨j, op, steps, leaf, decided⟩ | ⟨-, ⟨-, _, stopped⟩ | ⟨-, all⟩ | ⟨-, spent⟩⟩
    · rw [goesOn j (by omega) op leaf] at decided
      cases decided
    · cases stopped
    · omega
    · omega

/-- What holds at first and what going on keeps holds before each leaf that is started. -/
theorem holds_before (course : Course game limit stop leaves first upshot) (holds : σ → Prop)
    (initially : holds first)
    (keeps : ∀ op state, (game.apply op state).result = .ok .ongoing → holds state →
      holds (game.apply op state).state) {k : Nat} (started : k < upshot.steps) :
    holds (stateAfter game leaves first k) := by
  induction k with
  | zero => exact initially
  | succ k ih =>
    have leaf := List.getElem?_eq_getElem (Nat.lt_of_lt_of_le (Nat.lt_of_succ_lt started) course.within)
    rw [stateAfter_succ leaf]
    exact keeps _ _ (course.goesOn k started _ leaf) (ih (Nat.lt_of_succ_lt started))

theorem last_leaf (course : Course game limit stop leaves first upshot)
    (uncancelled : upshot.ending ≠ .cancelled) (unfinished : upshot.ending ≠ .completed .finished)
    (unspent : upshot.ending ≠ .failed (.stepLimit limit)) :
    ∃ k op, upshot.steps = k + 1 ∧ leaves[k]? = some op ∧
      settled op.block (game.apply op (stateAfter game leaves first k)).result = some upshot.ending := by
  rcases course.last with decided | ⟨-, ⟨ends, -⟩ | ⟨ends, -⟩ | ⟨ends, -⟩⟩
  · exact decided
  · exact absurd ends uncancelled
  · exact absurd ends unfinished
  · exact absurd ends unspent

theorem finished (course : Course game limit stop leaves first upshot)
    (ends : upshot.ending = .completed .finished) : upshot.steps = leaves.length := by
  rcases course.last with ⟨k, op, -, -, decided⟩ | ⟨-, ⟨other, -⟩ | ⟨-, all⟩ | ⟨other, -⟩⟩
  · rw [ends] at decided
    exact absurd decided (settled_ne_finished _ _)
  · cases ends.symm.trans other
  · exact all
  · cases ends.symm.trans other

theorem won (course : Course game limit stop leaves first upshot) {message : String}
    (ends : upshot.ending = .completed (.won message)) :
    ∃ k op, upshot.steps = k + 1 ∧ leaves[k]? = some op ∧
      (game.apply op (stateAfter game leaves first k)).result = .ok (.won message) := by
  obtain ⟨k, op, steps, leaf, decided⟩ := course.last_leaf (by simp [ends]) (by simp [ends]) (by simp [ends])
  exact ⟨k, op, steps, leaf, won_of_settled (decided.trans (congrArg some ends))⟩

theorem lost (course : Course game limit stop leaves first upshot) {message : String}
    (ends : upshot.ending = .completed (.lost message)) :
    ∃ k op, upshot.steps = k + 1 ∧ leaves[k]? = some op ∧
      (game.apply op (stateAfter game leaves first k)).result = .ok (.lost message) := by
  obtain ⟨k, op, steps, leaf, decided⟩ := course.last_leaf (by simp [ends]) (by simp [ends]) (by simp [ends])
  exact ⟨k, op, steps, leaf, lost_of_settled (decided.trans (congrArg some ends))⟩

end Course

/-- Which leaves a run starts that nobody asks to stop, and the state that they leave behind. -/
structure Played (game : Game σ) (limit : Nat) (leaves : List Op) (first : σ) (last : Session σ) : Prop where
  applied : last.applied = leaves.take last.steps
  state : last.game = stateAfter game leaves first last.steps
  started : ∀ k, k < last.steps ↔ k < leaves.length ∧ k < limit ∧ ∀ j < k, GoesOn game leaves first j

theorem run_played (game : Game σ) (limit : Nat) (ops : List Op) (state : σ)
    (ready : (game.reset state).result = .ok ()) {last : Session σ}
    (ran : last = (new ops state).run game limit fun _ _ => false) :
    Played game limit (Op.unrolls ops) (game.reset state).state last ∧
      ∃ ending, last.ending? = some ending ∧ Course game limit (fun _ _ => false) (Op.unrolls ops)
        (game.reset state).state ⟨ending, last.steps, last.game⟩ := by
  obtain ⟨applied, ending, ended, course⟩ := run_course game limit _ ops state ready ran
  exact ⟨⟨applied, course.state, fun k => course.started_iff⟩, ending, ended, course⟩

end BlockPlay.Session

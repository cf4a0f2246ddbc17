import BlockPlay.Proofs.Program.Unroll

/-!
The leaves that a walk brings up. What the frames still owe, written out as a list, changes in a turn
only by the leaf that comes up, so a cursor answers with the unrolled program and then with nothing.
-/
namespace BlockPlay.Cursor

/-- Each kind of turn, with the frames before it and what it comes to. -/
inductive Taken : List Frame → Turn → Prop where
  | ended : Taken [] .ended
  | again (body : List Op) (n : Nat) (outer : List Frame) :
      Taken (⟨[], body, n + 2⟩ :: outer) (.onward (⟨body, body, n + 1⟩ :: outer))
  | finish (body : List Op) (n : Nat) (outer : List Frame) (single : n ≤ 1) :
      Taken (⟨[], body, n⟩ :: outer) (.onward outer)
  | leaf (block : BlockId) (action : Action) (rest body : List Op) (n : Nat) (outer : List Frame) :
      Taken (⟨.leaf block action :: rest, body, n⟩ :: outer)
        (.leaf (.leaf block action) (⟨rest, body, n⟩ :: outer))
  | enter (block : BlockId) (count : UInt32) (inner rest body : List Op) (n : Nat)
      (outer : List Frame) (entered : enters count inner) :
      Taken (⟨.loop block count inner :: rest, body, n⟩ :: outer)
        (.onward (⟨inner, inner, count.toNat⟩ :: ⟨rest, body, n⟩ :: outer))
  | skip (block : BlockId) (count : UInt32) (inner rest body : List Op) (n : Nat)
      (outer : List Frame) (skipped : enters count inner = false) :
      Taken (⟨.loop block count inner :: rest, body, n⟩ :: outer)
        (.onward (⟨rest, body, n⟩ :: outer))

theorem Taken.of_turn {frames : List Frame} {t : Turn} (taken : turn frames = t) :
    Taken frames t := by
  subst taken
  fun_cases turn frames with
  | case1 => exact .ended
  | case2 body n outer => exact .again body n outer
  | case3 body n outer several =>
    have single : n ≤ 1 := by
      rcases n with _ | _ | n
      · exact Nat.zero_le 1
      · exact Nat.le_refl 1
      · exact absurd rfl (several n)
    exact .finish body n outer single
  | case4 block action rest body n outer => exact .leaf block action rest body n outer
  | case5 block count inner rest body n outer entered =>
    exact .enter block count inner rest body n outer entered
  | case6 block count inner rest body n outer skipped =>
    exact .skip block count inner rest body n outer (eq_false_of_ne_true skipped)

/-- So many turns, and the leaves that come up in them. -/
inductive Walk : Nat → List Frame → List Op → List Frame → Prop where
  | stay (frames : List Frame) : Walk 0 frames [] frames
  | onward {turns : Nat} {frames next last : List Frame} {leaves : List Op}
      (taken : turn frames = .onward next) (rest : Walk turns next leaves last) :
      Walk (turns + 1) frames leaves last
  | leaf {turns : Nat} {op : Op} {frames next last : List Frame} {leaves : List Op}
      (taken : turn frames = .leaf op next) (rest : Walk turns next leaves last) :
      Walk (turns + 1) frames (op :: leaves) last

/-- The frames that a walk over a program comes to, turn by turn. -/
def Reached (ops : List Op) (frames : List Frame) : Prop :=
  ∃ turns leaves, Walk turns (start ops).frames leaves frames

theorem Walk.trans {j k : Nat} {first middle last : List Frame} {leaves more : List Op}
    (before : Walk j first leaves middle) (after : Walk k middle more last) :
    Walk (j + k) first (leaves ++ more) last := by
  induction before with
  | stay => simpa only [Nat.zero_add, List.nil_append] using after
  | onward taken _ ih =>
    rw [Nat.add_right_comm]
    exact .onward taken (ih after)
  | leaf taken _ ih =>
    rw [Nat.add_right_comm]
    exact .leaf taken (ih after)

theorem Reached.walk {ops leaves : List Op} {turns : Nat} {frames later : List Frame}
    (reached : Reached ops frames) (walk : Walk turns frames leaves later) : Reached ops later := by
  obtain ⟨before, earlier, path⟩ := reached
  exact ⟨before + turns, earlier ++ leaves, path.trans walk⟩

theorem Reached.start (ops : List Op) : Reached ops (Cursor.start ops).frames :=
  ⟨0, [], .stay _⟩

def Turn.later? : Turn → Option (List Frame)
  | .ended => none
  | .leaf _ later => some later
  | .onward later => some later

/-- What holds at the start and is kept by every turn holds wherever a walk comes. -/
theorem Reached.keeps {ops : List Op} {keep : List Frame → Prop} {frames : List Frame}
    (reached : Reached ops frames) (first : keep (Cursor.start ops).frames)
    (step : ∀ {before after : List Frame} {t : Turn}, Taken before t → t.later? = some after →
      keep before → keep after) : keep frames := by
  obtain ⟨turns, leaves, walk⟩ := reached
  generalize (Cursor.start ops).frames = initial at walk first
  induction walk with
  | stay => exact first
  | onward taken _ ih => exact ih (step (.of_turn taken) rfl first)
  | leaf taken _ ih => exact ih (step (.of_turn taken) rfl first)

/-- The leaves that are left of this pass of a frame and of the passes after it. -/
def pendingOf (f : Frame) : List Op :=
  Op.unrolls f.rest ++ (List.replicate (f.passes - 1) (Op.unrolls f.body)).flatten

def pending (frames : List Frame) : List Op := frames.flatMap pendingOf

theorem pending_start (ops : List Op) : pending (start ops).frames = Op.unrolls ops := by
  simp [pending, start, pendingOf]

theorem exists_count {count : UInt32} {inner : List Op} (entered : enters count inner) :
    ∃ n, count.toNat = n + 1 := by
  have positive : count ≠ 0 := by
    intro zero
    simp [enters, zero] at entered
  exact Nat.exists_eq_succ_of_ne_zero fun zero => positive (UInt32.toNat_inj.mp zero)

theorem pendingOf_enter (block : BlockId) {count : UInt32} {inner : List Op}
    (entered : enters count inner) :
    pendingOf ⟨inner, inner, count.toNat⟩ = (Op.loop block count inner).unroll := by
  obtain ⟨passes, more⟩ := exists_count entered
  simp [pendingOf, Op.unroll, more, List.replicate_succ]

def Owes (frames : List Frame) : Turn → Prop
  | .ended => pending frames = []
  | .leaf op later => pending frames = op :: pending later
  | .onward later => pending frames = pending later

theorem Taken.owes {frames : List Frame} {t : Turn} (step : Taken frames t) : Owes frames t := by
  cases step with
  | ended => rfl
  | again body n outer =>
    simp [Owes, pending, pendingOf, Op.unrolls, List.replicate_succ]
  | finish body n outer single =>
    have last : n - 1 = 0 := Nat.sub_eq_zero_of_le single
    simp [Owes, pending, pendingOf, Op.unrolls, last]
  | leaf block action rest body n outer =>
    simp [Owes, pending, pendingOf, Op.unrolls, Op.unroll]
  | enter block count inner rest body n outer entered =>
    simp only [Owes, pending, List.flatMap_cons, pendingOf_enter block entered]
    simp [pendingOf, Op.unrolls]
  | skip block count inner rest body n outer skipped =>
    have nothing := Op.unroll_eq_nil_of_not_enters block skipped
    simp [Owes, pending, pendingOf, Op.unrolls, nothing]

theorem Walk.pending_eq {turns : Nat} {frames later : List Frame} {leaves : List Op}
    (walk : Walk turns frames leaves later) : pending frames = leaves ++ pending later := by
  induction walk with
  | stay => rfl
  | @onward _ frames next _ _ taken _ ih =>
    have owed : pending frames = pending next := (Taken.of_turn taken).owes
    exact owed.trans ih
  | @leaf _ op frames next _ _ taken _ ih =>
    have owed : pending frames = op :: pending next := (Taken.of_turn taken).owes
    rw [owed, ih]
    rfl

theorem advance_walk (frames : List Frame) :
    ∃ turns later, Walk turns frames [] later ∧
      (turn later = .ended ∧ advance frames = (none, []) ∨
        ∃ op rest, turn later = .leaf op rest ∧ advance frames = (some op, rest)) := by
  fun_induction advance frames with
  | case1 frames taken => exact ⟨0, frames, .stay frames, Or.inl ⟨taken, rfl⟩⟩
  | case2 frames op rest taken => exact ⟨0, frames, .stay frames, Or.inr ⟨op, rest, taken, rfl⟩⟩
  | case3 frames next taken ih =>
    obtain ⟨turns, later, walk, answer⟩ := ih
    exact ⟨turns + 1, later, .onward taken walk, answer⟩

theorem pending_advance (frames : List Frame) :
    (advance frames).1 = (pending frames).head? ∧ pending (advance frames).2 = (pending frames).tail := by
  obtain ⟨turns, later, walk, answer⟩ := advance_walk frames
  have same : pending frames = pending later := walk.pending_eq
  rcases answer with ⟨taken, result⟩ | ⟨op, rest, taken, result⟩
  · have owed : pending later = [] := (Taken.of_turn taken).owes
    rw [result, same, owed]
    exact ⟨rfl, rfl⟩
  · have owed : pending later = op :: pending rest := (Taken.of_turn taken).owes
    rw [result, same, owed]
    exact ⟨rfl, rfl⟩

def calls : Nat → Cursor → Cursor
  | 0, c => c
  | k + 1, c => calls k c.next.2

theorem pending_calls (k : Nat) (c : Cursor) :
    pending (calls k c).frames = (pending c.frames).drop k := by
  induction k generalizing c with
  | zero => rfl
  | succ k ih =>
    have step : pending c.next.2.frames = (pending c.frames).tail := (pending_advance c.frames).2
    rw [calls, ih, step, List.drop_tail]

/-- The answer to a call, the first being the one with number zero. -/
def answer (ops : List Op) (k : Nat) : Option Op := (calls k (start ops)).next.1

theorem answer_eq (ops : List Op) (k : Nat) : answer ops k = (Op.unrolls ops)[k]? := by
  have first : answer ops k = (pending (calls k (start ops)).frames).head? :=
    (pending_advance (calls k (start ops)).frames).1
  rw [first, pending_calls, pending_start, List.head?_drop]

/-- The calls of a cursor answer with the leaves of the unrolled program, one after the other, and from
then on with nothing. No answer is a loop, and from any frames at all a call ends after finitely many
turns. -/
theorem calls_answer_unrolls (ops : List Op) :
    (∀ k, answer ops k = (Op.unrolls ops)[k]?) ∧
    (∀ k op, answer ops k = some op → op.isLeaf) ∧
    (∀ k, answer ops k = none → ∀ later, k ≤ later → answer ops later = none) ∧
    ∀ frames : List Frame, ∃ turns last, Walk turns frames [] last ∧
      (turn last = .ended ∧ (⟨frames⟩ : Cursor).next = (none, ⟨[]⟩) ∨
        ∃ op rest, turn last = .leaf op rest ∧ (⟨frames⟩ : Cursor).next = (some op, ⟨rest⟩)) := by
  refine ⟨answer_eq ops, ?_, ?_, ?_⟩
  · intro k op answered
    rw [answer_eq] at answered
    exact Op.isLeaf_of_mem_unrolls (List.mem_of_getElem? answered)
  · intro k nothing later after
    rw [answer_eq, List.getElem?_eq_none_iff] at nothing ⊢
    exact Nat.le_trans nothing after
  · intro frames
    obtain ⟨turns, last, walk, answered⟩ := advance_walk frames
    refine ⟨turns, last, walk, ?_⟩
    rcases answered with ⟨taken, result⟩ | ⟨op, rest, taken, result⟩
    · exact Or.inl ⟨taken, by rw [next, result]⟩
    · exact Or.inr ⟨op, rest, taken, by rw [next, result]⟩

end BlockPlay.Cursor

import BlockPlay.Proofs.Program.Walk

/-!
Where in a program a walk stands. Each frame of a cursor has taken an op of its list last: the numbers of these ops,
from the outermost list inwards, are the place of the leaf that came up last, so the cursor is as deep as the loops
around that leaf are many, and one more.
-/
namespace BlockPlay

namespace Op

/-- The op at a place, and the loops around it from the outermost inwards. A place is the way down to the op, by its
number in each list. -/
inductive Stands : List Op → List Nat → List Op → Op → Prop where
  | here {ops : List Op} {i : Nat} {op : Op} (get : ops[i]? = some op) : Stands ops [i] [] op
  | inside {ops body around : List Op} {i : Nat} {place : List Nat} {block : BlockId} {count : UInt32} {op : Op}
      (get : ops[i]? = some (.loop block count body)) (deeper : Stands body place around op) :
      Stands ops (i :: place) (.loop block count body :: around) op

mutual

/-- The leaves of an op in the order in which they run, each with its place. -/
def visit (place : List Nat) : Op → List (List Nat × Op)
  | leaf block action => [(place, leaf block action)]
  | loop _ count body => (List.replicate count.toNat (visits place 0 body)).flatten

/-- The same for the ops of a list, of which the first has a given number. -/
def visits (above : List Nat) (number : Nat) : List Op → List (List Nat × Op)
  | [] => []
  | op :: ops => op.visit (above ++ [number]) ++ visits above (number + 1) ops

end

theorem map_snd_visits (above : List Nat) (number : Nat) (ops : List Op) :
    (visits above number ops).map Prod.snd = unrolls ops := by
  induction ops using forest generalizing above number with
  | nil => rfl
  | leaf block action ops ih =>
    rw [visits, List.map_append, ih]
    rfl
  | loop block count body ops inner ih =>
    rw [visits, List.map_append, ih, visit, List.map_flatten, List.map_replicate, inner]
    rfl

theorem visit_eq_nil_of_not_enters (place : List Nat) (block : BlockId) {count : UInt32} {body : List Op}
    (skipped : Cursor.enters count body = false) : (loop block count body).visit place = [] := by
  have same : ((loop block count body).visit place).map Prod.snd = (loop block count body).unroll := by
    rw [visit, List.map_flatten, List.map_replicate, map_snd_visits]
    rfl
  rw [unroll_eq_nil_of_not_enters block skipped] at same
  exact List.map_eq_nil_iff.mp same

theorem depth_le_depths {ops : List Op} {op : Op} (present : op ∈ ops) : op.depth ≤ depths ops := by
  induction present with
  | head ops => exact Nat.le_max_left ..
  | tail _ _ ih => exact Nat.le_trans ih (Nat.le_max_right ..)

namespace Stands

variable {ops around : List Op} {place : List Nat} {op : Op}

theorem cons {i : Nat} (stands : Stands ops (i :: place) around op) (first : Op) :
    Stands (first :: ops) ((i + 1) :: place) around op := by
  cases stands with
  | here get => exact .here get
  | inside get deeper => exact .inside get deeper

theorem length_place (stands : Stands ops place around op) : place.length = around.length + 1 := by
  induction stands with
  | here => rfl
  | inside _ _ ih => rw [List.length_cons, List.length_cons, ih]

theorem length_le_depths (stands : Stands ops place around op) : place.length ≤ depths ops := by
  induction stands with
  | @here ops i op get =>
    have one : 1 ≤ op.depth := by cases op <;> simp [depth]
    exact Nat.le_trans one (depth_le_depths (List.mem_of_getElem? get))
  | inside get _ ih =>
    have within := depth_le_depths (List.mem_of_getElem? get)
    rw [depth] at within
    rw [List.length_cons]
    omega

end Stands

/-- What runs stands at the place under which it is visited. -/
theorem stands_of_mem_visits {above place : List Nat} {number : Nat} {ops : List Op} {op : Op}
    (present : (place, op) ∈ visits above number ops) :
    ∃ i rest around, place = above ++ (number + i) :: rest ∧ Stands ops (i :: rest) around op := by
  induction ops using forest generalizing above number with
  | nil => cases present
  | leaf block action ops ih =>
    rcases List.mem_append.mp present with here | later
    · cases List.mem_singleton.mp here
      exact ⟨0, [], [], rfl, .here rfl⟩
    · obtain ⟨i, rest, around, rfl, stands⟩ := ih later
      exact ⟨i + 1, rest, around, by rw [Nat.add_right_comm, Nat.add_assoc], stands.cons _⟩
  | loop block count body ops inner ih =>
    rcases List.mem_append.mp present with here | later
    · obtain ⟨pass, repeated, inside⟩ := List.mem_flatten.mp here
      obtain ⟨-, rfl⟩ := List.mem_replicate.mp repeated
      obtain ⟨i, rest, around, rfl, stands⟩ := inner inside
      refine ⟨0, i :: rest, _, ?_, .inside rfl stands⟩
      rw [List.append_assoc, List.singleton_append, Nat.zero_add, Nat.add_zero]
    · obtain ⟨i, rest, around, rfl, stands⟩ := ih later
      exact ⟨i + 1, rest, around, by rw [Nat.add_right_comm, Nat.add_assoc], stands.cons _⟩

end Op

namespace Cursor

/-- The number of the op that a frame has taken last. -/
def spot (f : Frame) : Nat := f.body.length - f.rest.length - 1

def place (frames : List Frame) : List Nat := (frames.map spot).reverse

theorem place_cons (f : Frame) (outer : List Frame) : place (f :: outer) = place outer ++ [spot f] := by
  rw [place, List.map_cons, List.reverse_cons, place]

theorem length_place (frames : List Frame) : (place frames).length = frames.length := by
  rw [place, List.length_reverse, List.length_map]

/-- What is left of a pass is no longer than the body. -/
def Fits (frames : List Frame) : Prop := ∀ f ∈ frames, f.rest.length ≤ f.body.length

/-- The visits that are left of this pass of a frame and of the passes after it. -/
def owingOf (above : List Nat) (f : Frame) : List (List Nat × Op) :=
  Op.visits above (f.body.length - f.rest.length) f.rest ++
    (List.replicate (f.passes - 1) (Op.visits above 0 f.body)).flatten

def owing : List Frame → List (List Nat × Op)
  | [] => []
  | f :: outer => owingOf (place outer) f ++ owing outer

theorem owing_start (ops : List Op) : owing (start ops).frames = Op.visits [] 0 ops := by
  simp [owing, start, owingOf, place]

theorem Taken.fits {before after : List Frame} {t : Turn} (step : Taken before t) (comes : t.later? = some after)
    (fits : Fits before) : Fits after := by
  cases step with
  | ended => cases comes
  | again body n outer =>
    cases comes
    exact List.forall_mem_cons.mpr ⟨Nat.le_refl _, (List.forall_mem_cons.mp fits).2⟩
  | finish body n outer single =>
    cases comes
    exact (List.forall_mem_cons.mp fits).2
  | leaf block action rest body n outer =>
    cases comes
    obtain ⟨first, later⟩ := List.forall_mem_cons.mp fits
    exact List.forall_mem_cons.mpr ⟨Nat.le_of_succ_le first, later⟩
  | enter block count inner rest body n outer entered =>
    cases comes
    obtain ⟨first, later⟩ := List.forall_mem_cons.mp fits
    exact List.forall_mem_cons.mpr ⟨Nat.le_refl _, List.forall_mem_cons.mpr ⟨Nat.le_of_succ_le first, later⟩⟩
  | skip block count inner rest body n outer skipped =>
    cases comes
    obtain ⟨first, later⟩ := List.forall_mem_cons.mp fits
    exact List.forall_mem_cons.mpr ⟨Nat.le_of_succ_le first, later⟩

/-- A turn takes from the visits the one that it comes to, which is at the place that is then spelled. -/
def Visits (frames : List Frame) : Turn → Prop
  | .ended => owing frames = []
  | .leaf op later => owing frames = (place later, op) :: owing later
  | .onward later => owing frames = owing later

/-- A frame that takes its next op is left with the visits of the others, and has spelled the place of that op. -/
theorem owingOf_cons (above : List Nat) (op : Op) (rest body : List Op) (n : Nat)
    (fits : (op :: rest).length ≤ body.length) :
    owingOf above ⟨op :: rest, body, n⟩ =
      op.visit (above ++ [spot ⟨rest, body, n⟩]) ++ owingOf above ⟨rest, body, n⟩ := by
  rw [List.length_cons] at fits
  have number : body.length - (rest.length + 1) = spot ⟨rest, body, n⟩ := (Nat.sub_sub ..).symm
  have next : spot ⟨rest, body, n⟩ + 1 = body.length - rest.length := by
    rw [← number]
    omega
  simp only [owingOf, List.length_cons, Op.visits, number, next, List.append_assoc]

theorem owingOf_enter (above : List Nat) (block : BlockId) {count : UInt32} {inner : List Op}
    (entered : enters count inner) :
    owingOf above ⟨inner, inner, count.toNat⟩ = (Op.loop block count inner).visit above := by
  obtain ⟨passes, more⟩ := exists_count entered
  simp [owingOf, Op.visit, more, List.replicate_succ]

theorem Taken.visits {frames : List Frame} {t : Turn} (step : Taken frames t) (fits : Fits frames) :
    Visits frames t := by
  cases step with
  | ended => rfl
  | again body n outer => simp [Visits, owing, owingOf, Op.visits, List.replicate_succ]
  | finish body n outer single =>
    have last : n - 1 = 0 := Nat.sub_eq_zero_of_le single
    simp [Visits, owing, owingOf, Op.visits, last]
  | leaf block action rest body n outer =>
    have first := owingOf_cons (place outer) (.leaf block action) rest body n (List.forall_mem_cons.mp fits).1
    rw [Visits, owing, first, place_cons, owing]
    rfl
  | enter block count inner rest body n outer entered =>
    have first := owingOf_cons (place outer) (.loop block count inner) rest body n (List.forall_mem_cons.mp fits).1
    rw [Visits, owing, owing, owing, first, owingOf_enter _ block entered, place_cons, List.append_assoc]
  | skip block count inner rest body n outer skipped =>
    have first := owingOf_cons (place outer) (.loop block count inner) rest body n (List.forall_mem_cons.mp fits).1
    rw [Visits, owing, owing, first, Op.visit_eq_nil_of_not_enters _ block skipped, List.nil_append]

theorem Walk.visits {turns : Nat} {frames later : List Frame} (walk : Walk turns frames [] later)
    (fits : Fits frames) : owing frames = owing later ∧ Fits later := by
  generalize none : ([] : List Op) = leaves at walk
  induction walk with
  | stay => exact ⟨rfl, fits⟩
  | @onward _ frames next _ _ taken _ ih =>
    have step := Taken.of_turn taken
    have same : owing frames = owing next := step.visits fits
    obtain ⟨onward, kept⟩ := ih (step.fits rfl fits) none
    exact ⟨same.trans onward, kept⟩
  | leaf => cases none

/-- A call brings up the first visit that is left, and spells its place. -/
theorem owing_advance {frames : List Frame} (fits : Fits frames) :
    owing frames = [] ∧ advance frames = (none, []) ∨
      ∃ op rest, owing frames = (place rest, op) :: owing rest ∧ advance frames = (some op, rest) ∧ Fits rest := by
  obtain ⟨turns, later, walk, answered⟩ := advance_walk frames
  obtain ⟨same, kept⟩ := walk.visits fits
  rcases answered with ⟨taken, result⟩ | ⟨op, rest, taken, result⟩
  · have nothing : owing later = [] := (Taken.of_turn taken).visits kept
    exact .inl ⟨same.trans nothing, result⟩
  · have step := Taken.of_turn taken
    have first : owing later = (place rest, op) :: owing rest := step.visits kept
    exact .inr ⟨op, rest, same.trans first, result, step.fits rfl kept⟩

theorem calls_succ (k : Nat) (c : Cursor) : calls (k + 1) c = (calls k c).next.2 := by
  induction k generalizing c with
  | zero => rfl
  | succ k ih => exact ih c.next.2

theorem frames_calls_succ (k : Nat) (c : Cursor) : (calls (k + 1) c).frames = (advance (calls k c).frames).2 := by
  rw [calls_succ]
  rfl

theorem owing_calls (ops : List Op) (k : Nat) :
    owing (calls k (start ops)).frames = (Op.visits [] 0 ops).drop k ∧ Fits (calls k (start ops)).frames := by
  -- Each call takes one visit off the front, so what is owed tells how many calls there were.
  induction k with
  | zero => exact ⟨owing_start ops, List.forall_mem_singleton.mpr (Nat.le_refl _)⟩
  | succ k ih =>
    obtain ⟨left, fits⟩ := ih
    rw [← List.tail_drop, ← left, frames_calls_succ]
    rcases owing_advance fits with ⟨nothing, result⟩ | ⟨op, rest, first, result, kept⟩
    · rw [nothing, result]
      exact ⟨rfl, List.forall_mem_nil _⟩
    · rw [first, result]
      exact ⟨rfl, kept⟩

/-- A call that answers with a leaf leaves the frames at the place of that visit. -/
theorem visit_of_answer {ops : List Op} {k : Nat} {leaf : Op} (answered : answer ops k = some leaf) :
    (Op.visits [] 0 ops)[k]? = some (place (calls (k + 1) (start ops)).frames, leaf) := by
  obtain ⟨left, fits⟩ := owing_calls ops k
  change (advance (calls k (start ops)).frames).1 = some leaf at answered
  rw [← List.head?_drop, ← left, frames_calls_succ]
  rcases owing_advance fits with ⟨-, result⟩ | ⟨op, rest, first, result, -⟩
  · rw [result] at answered
    cases answered
  · rw [result] at answered ⊢
    cases answered
    rw [first, List.head?_cons]

/-- Once a call has answered with nothing, no frames are left. -/
theorem frames_of_answer_none {ops : List Op} {k later : Nat} (nothing : answer ops k = none) (after : k < later) :
    (calls later (start ops)).frames = [] := by
  obtain ⟨j, rfl⟩ : ∃ j, later = j + 1 := Nat.exists_eq_add_one_of_ne_zero (by omega)
  rw [answer_eq, ← Op.map_snd_visits [] 0, List.getElem?_eq_none_iff, List.length_map] at nothing
  obtain ⟨left, fits⟩ := owing_calls ops j
  rw [List.drop_eq_nil_of_le (by omega)] at left
  rw [frames_calls_succ]
  rcases owing_advance fits with ⟨-, result⟩ | ⟨op, rest, first, -⟩
  · rw [result]
  · rw [left] at first
    cases first

/-- After a call that answers with a leaf, the cursor is as deep as the loops around that leaf are many, and one more;
which of several equal leaves it is, is told by its place, which the frames spell. After a call that answers with
nothing, it is at depth zero for good. -/
theorem depth_calls (ops : List Op) :
    (∀ k leaf, answer ops k = some leaf → ∃ path around,
      (Op.visits [] 0 ops)[k]? = some (path, leaf) ∧ Op.Stands ops path around leaf ∧
        place (calls (k + 1) (start ops)).frames = path ∧
          (calls (k + 1) (start ops)).depth = 1 + around.length ∧
            1 ≤ (calls (k + 1) (start ops)).depth ∧ (calls (k + 1) (start ops)).depth ≤ (Program.mk ops).depth) ∧
      ∀ k, answer ops k = none → ∀ later, k < later → (calls later (start ops)).depth = 0 := by
  refine ⟨fun k leaf answered => ?_, fun k nothing later after => ?_⟩
  · have visited := visit_of_answer answered
    obtain ⟨i, deeper, around, path, stands⟩ := Op.stands_of_mem_visits (List.mem_of_getElem? visited)
    rw [List.nil_append, Nat.zero_add] at path
    rw [← path] at stands
    have depth_eq : (calls (k + 1) (start ops)).depth = (place (calls (k + 1) (start ops)).frames).length :=
      (length_place _).symm
    refine ⟨_, around, visited, stands, rfl, ?_, ?_, ?_⟩
    · rw [depth_eq, stands.length_place, Nat.add_comm]
    · rw [depth_eq, stands.length_place]
      exact Nat.le_add_left ..
    · rw [depth_eq]
      exact stands.length_le_depths
  · rw [depth, frames_of_answer_none nothing after, List.length_nil]

end Cursor

end BlockPlay

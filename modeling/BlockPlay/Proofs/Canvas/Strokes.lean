import BlockPlay.Level.Document
import BlockPlay.Proofs.Canvas.Picture
import BlockPlay.Proofs.Json.Meaning

/-!
What instructions leave on a canvas. The pen never gets off the canvas, and the strokes are those of the moves
that draw, in order, each with the color and the width that were set last.
-/
namespace BlockPlay

namespace Op

def pen? : Op → Option Bool
  | leaf _ (.pen down) => some down
  | _ => none

def color? : Op → Option String
  | leaf _ (.color color) => some color
  | _ => none

/-- A width that no line can have sets nothing. -/
def width? : Op → Option Float
  | leaf _ (.width width) => if width.isFinite && 0 < width then some width else none
  | _ => none

/-- The value that has been set last. -/
def latest {α : Type} (set? : Op → Option α) (usual : α) (ops : List Op) : α :=
  (ops.filterMap set?).getLastD usual

theorem move_or_still (op : Op) :
    (∃ block steps, op = .leaf block (.move steps)) ∨ ∀ block steps, op ≠ .leaf block (.move steps) := by
  by_cases move : ∃ block steps, op = .leaf block (.move steps)
  · exact .inl move
  · exact .inr fun block steps same => move ⟨block, steps, same⟩

end Op

/-- What each instruction sets or leaves as it is has the value that has been set last. -/
theorem Session.carried_latest {σ α : Type} {game : Game σ} {get : σ → α} {set? : Op → Option α}
    (sets : ∀ op state, get (game.apply op state).state = (set? op).getD (get state)) (ops : List Op)
    (state : σ) : get (carried game ops state) = Op.latest set? (get state) ops := by
  induction ops generalizing state with
  | nil => rfl
  | cons op ops ih =>
    have later := ih (game.apply op state).state
    rw [sets] at later
    refine later.trans ?_
    rw [Op.latest, Op.latest, List.filterMap_cons]
    cases set? op with
    | none => rfl
    | some value => exact List.getLastD_cons.symm

namespace Canvas

open Session (carried carried_concat carried_keeps carried_latest)

/-- A canvas that has been read, or whose start has been set; the length of its steps and its target may have
been set afterwards. -/
inductive Placed : Canvas → Prop
  | read {context : Json.Context} {tree : Json.Tree} {c : Canvas} (loaded : read context tree = .ok c) : Placed c
  | withStart {before c : Canvas} {start : Point} {heading : Float}
      (set : before.withStart start heading = .ok c) : Placed c
  | withStepLength {before c : Canvas} {length : Float} (placed : Placed before)
      (set : before.withStepLength length = .ok c) : Placed c
  | withTarget {before : Canvas} (target : List Line) (placed : Placed before) :
      Placed (before.withTarget target)

theorem contains_of_withStart {before c : Canvas} {start : Point} {heading : Float}
    (set : before.withStart start heading = .ok c) : c.contains c.start := by
  rw [withStart] at set
  split at set
  next => cases set
  next inside =>
    rw [Bool.not_eq_true, Bool.not_eq_false'] at inside
    split at set
    next => cases set
    next =>
      cases set
      exact inside

theorem contains_of_withStepLength {before c : Canvas} {length : Float}
    (inside : before.contains before.start) (set : before.withStepLength length = .ok c) :
    c.contains c.start := by
  rw [withStepLength] at set
  split at set
  next =>
    cases set
    exact inside
  next => cases set

theorem contains_of_check {d : Draft} {c : Canvas} (checked : d.check = .ok c) : c.contains c.start := by
  obtain ⟨bare, -, rest⟩ := Json.bind_eq_ok_iff.mp checked
  obtain ⟨started, set, rest⟩ := Json.bind_eq_ok_iff.mp rest
  obtain ⟨stepping, long, rest⟩ := Json.bind_eq_ok_iff.mp rest
  cases rest
  have inside : stepping.contains stepping.start :=
    contains_of_withStepLength (contains_of_withStart set) long
  exact inside

theorem Placed.contains_start {c : Canvas} (placed : c.Placed) : c.contains c.start := by
  induction placed with
  | read loaded =>
    obtain ⟨draft, -, checked⟩ := Json.bind_eq_ok_iff.mp loaded
    cases accepted : draft.check with
    | error fault =>
      rw [accepted] at checked
      cases checked
    | ok c =>
      rw [accepted] at checked
      cases checked
      exact contains_of_check accepted
  | withStart set => exact contains_of_withStart set
  | withStepLength _ set inside => exact contains_of_withStepLength inside set
  | withTarget _ _ inside => exact inside

variable {c : Canvas} {pace : Pace}

/-- What instructions make of a canvas that is as it was at first. -/
def drawing (c : Canvas) (pace : Pace) (ops : List Op) : Drawing := carried (c.game pace) ops c.initial

/-- The stroke that an instruction draws after others. A move draws one if it leaves its place, the pen has
been down since it was last set, and the canvas reaches as far. -/
def strike? (c : Canvas) (pace : Pace) (done : List Op) (op : Op) : Option Stroke :=
  match op with
  | .leaf _ (.move steps) =>
    if steps ≠ 0 ∧ Op.latest Op.pen? true done ∧ c.contains (c.ahead (c.drawing pace done) steps) then
      some ⟨(c.drawing pace done).position, (c.drawing pace (done ++ [op])).position,
        Op.latest Op.color? "#000000" done, Op.latest Op.width? 1 done⟩
    else none
  | _ => none

/-- What instructions have drawn, whatever the game has said to them. -/
structure Traced (c : Canvas) (pace : Pace) (ops : List Op) : Prop where
  inside : c.contains (c.drawing pace ops).position
  grows : ∀ more, (c.drawing pace ops).inOrder <+: (c.drawing pace (ops ++ more)).inOrder
  strokes : (c.drawing pace ops).inOrder =
    (List.range ops.length).filterMap fun k => ops[k]?.bind (c.strike? pace (ops.take k))
  framed : ∀ s ∈ (c.drawing pace ops).inOrder, c.contains s.source ∧ c.contains s.target
  arrives : ∀ block steps, c.contains (c.ahead (c.drawing pace ops) steps) →
    (c.drawing pace (ops ++ [.leaf block (.move steps)])).position = c.ahead (c.drawing pace ops) steps
  leaves : ∀ block steps, ¬ c.contains (c.ahead (c.drawing pace ops) steps) →
    (c.apply pace (.leaf block (.move steps)) (c.drawing pace ops)).result =
        .ok (.lost s!"left the canvas at {(c.ahead (c.drawing pace ops) steps).describe}") ∧
      c.drawing pace (ops ++ [.leaf block (.move steps)]) = c.drawing pace ops
  widens : ∀ block width, Op.width? (.leaf block (.width width)) = some width ↔
    ∃ outcome, (c.apply pace (.leaf block (.width width)) (c.drawing pace ops)).result = .ok outcome

theorem drawing_concat (done : List Op) (op : Op) :
    c.drawing pace (done ++ [op]) = (c.apply pace op (c.drawing pace done)).state := carried_concat done op

theorem pen_apply (op : Op) (d : Drawing) :
    (c.apply pace op d).state.penDown = (Op.pen? op).getD d.penDown ∧
      (c.apply pace op d).state.color = (Op.color? op).getD d.color ∧
      (c.apply pace op d).state.width = (Op.width? op).getD d.width := by
  cases op with
  | loop => exact ⟨rfl, rfl, rfl⟩
  | leaf block action =>
    cases action with
    | move steps =>
      rw [apply]
      split <;> exact ⟨rfl, rfl, rfl⟩
    | width width =>
      rw [apply, Op.width?]
      split <;> exact ⟨rfl, rfl, rfl⟩
    | _ => exact ⟨rfl, rfl, rfl⟩

theorem pen_drawing (c : Canvas) (pace : Pace) (ops : List Op) :
    (c.drawing pace ops).penDown = Op.latest Op.pen? true ops ∧
      (c.drawing pace ops).color = Op.latest Op.color? "#000000" ops ∧
      (c.drawing pace ops).width = Op.latest Op.width? 1 ops :=
  have latest {α : Type} (get : Drawing → α) (set? : Op → Option α) :=
    @carried_latest Drawing α (c.game pace) get set?
  ⟨latest Drawing.penDown Op.pen? (fun op d => (pen_apply op d).1) ops c.initial,
    latest Drawing.color Op.color? (fun op d => (pen_apply op d).2.1) ops c.initial,
    latest Drawing.width Op.width? (fun op d => (pen_apply op d).2.2) ops c.initial⟩

theorem apply_move_inside (pace : Pace) (block : BlockId) {steps : Int32} {d : Drawing}
    (inside : c.contains (c.ahead d steps)) :
    (c.apply pace (.leaf block (.move steps)) d).state = draw d steps (c.ahead d steps) := by
  simp only [apply, if_pos inside, settle]

theorem apply_move_outside (pace : Pace) (block : BlockId) {steps : Int32} {d : Drawing}
    (outside : ¬ c.contains (c.ahead d steps)) :
    c.apply pace (.leaf block (.move steps)) d =
      ⟨.ok (.lost s!"left the canvas at {(c.ahead d steps).describe}"), d, pace.step⟩ := by
  simp only [apply, if_neg outside]

/-- Only moves take the pen elsewhere or draw anything. -/
theorem apply_still {op : Op} (still : ∀ block steps, op ≠ .leaf block (.move steps)) (d : Drawing) :
    (c.apply pace op d).state.position = d.position ∧ (c.apply pace op d).state.strokes = d.strokes := by
  cases op with
  | loop => exact ⟨rfl, rfl⟩
  | leaf block action =>
    cases action with
    | move steps => exact absurd rfl (still block steps)
    | width width =>
      rw [apply]
      split <;> exact ⟨rfl, rfl⟩
    | _ => exact ⟨rfl, rfl⟩

theorem contains_apply (op : Op) {d : Drawing} (inside : c.contains d.position) :
    c.contains (c.apply pace op d).state.position := by
  rcases op.move_or_still with ⟨block, steps, rfl⟩ | still
  · by_cases reaches : c.contains (c.ahead d steps)
    · rw [apply_move_inside pace block reaches]
      exact reaches
    · rw [apply_move_outside pace block reaches]
      exact inside
  · rw [(apply_still still d).1]
    exact inside

theorem strike?_still {done : List Op} {op : Op} (still : ∀ block steps, op ≠ .leaf block (.move steps)) :
    c.strike? pace done op = none := by
  unfold strike?
  split
  next block steps => exact absurd rfl (still block steps)
  next => rfl

theorem inOrder_concat (done : List Op) (op : Op) :
    (c.drawing pace (done ++ [op])).inOrder =
      (c.drawing pace done).inOrder ++ (c.strike? pace done op).toList := by
  have nothing {d : Drawing} (same : d.strokes = (c.drawing pace done).strokes) :
      d.inOrder = (c.drawing pace done).inOrder ++ (none : Option Stroke).toList := by
    rw [Drawing.inOrder, Drawing.inOrder, same, Option.toList_none, List.append_nil]
  rcases op.move_or_still with ⟨block, steps, rfl⟩ | still
  · obtain ⟨down, color, width⟩ := c.pen_drawing pace done
    by_cases reaches : c.contains (c.ahead (c.drawing pace done) steps)
    · have next := (drawing_concat done _).trans (apply_move_inside pace block reaches)
      rw [strike?, next, ← down, ← color, ← width]
      by_cases draws : steps ≠ 0 ∧ (c.drawing pace done).penDown
      · rw [if_pos ⟨draws.1, draws.2, reaches⟩]
        simp [draw, draws.1, draws.2, Drawing.inOrder]
      · rw [if_neg fun all => draws ⟨all.1, all.2.1⟩]
        refine nothing (if_neg ?_)
        simpa [and_comm] using draws
    · have next := (drawing_concat done _).trans
        (congrArg Answer.state (apply_move_outside pace block reaches))
      rw [next, strike?, if_neg fun all => reaches all.2.2]
      exact nothing rfl
  · rw [strike?_still still, drawing_concat]
    exact nothing (apply_still still _).2

theorem inOrder_drawing (ops : List Op) :
    (c.drawing pace ops).inOrder =
      (List.range ops.length).filterMap fun k => ops[k]?.bind (c.strike? pace (ops.take k)) := by
  -- The last instruction adds its stroke; what the others draw depends on those before them only.
  induction ops using List.reverseRecOn with
  | nil => rfl
  | append_singleton done op ih =>
    have earlier : ∀ k ∈ List.range done.length,
        (done ++ [op])[k]?.bind (c.strike? pace ((done ++ [op]).take k)) =
          done[k]?.bind (c.strike? pace (done.take k)) := by
      intro k within
      have before := List.mem_range.mp within
      rw [List.getElem?_append_left before, List.take_append_of_le_length (Nat.le_of_lt before)]
    rw [inOrder_concat, ih, List.length_append, List.length_singleton, List.range_succ,
      List.filterMap_append, List.filterMap_congr earlier, List.filterMap_cons, List.filterMap_nil,
      List.getElem?_concat_length, List.take_left, Option.bind_some]
    cases c.strike? pace done op <;> rfl

theorem contains_drawing (placed : c.Placed) (ops : List Op) :
    c.contains (c.drawing pace ops).position :=
  @carried_keeps _ (c.game pace) (fun d => c.contains d.position) (fun op _ => contains_apply op) ops _
    placed.contains_start

theorem contains_strike (placed : c.Placed) {done : List Op} {op : Op} {s : Stroke}
    (draws : c.strike? pace done op = some s) : c.contains s.source ∧ c.contains s.target := by
  unfold strike? at draws
  split at draws
  next =>
    split at draws <;> cases draws
    exact ⟨contains_drawing placed done, contains_drawing placed (done ++ [_])⟩
  next => cases draws

/-- Whatever instructions are given to a canvas that has its start on it, the pen stays on it, and what is drawn
are the strokes of the moves that draw, each with the color and the width that were set last. -/
theorem drawing_traced (placed : c.Placed) (pace : Pace) (ops : List Op) : c.Traced pace ops := by
  refine ⟨contains_drawing placed ops, fun more => ?_, inOrder_drawing ops, fun s drawn => ?_,
    fun block steps reaches => ?_, fun block steps outside => ?_, fun block width => ?_⟩
  · rw [Drawing.inOrder, Drawing.inOrder, List.reverse_prefix, drawing, drawing, carried, carried,
      List.foldl_append]
    exact carried_strokes more _
  · rw [inOrder_drawing] at drawn
    obtain ⟨k, -, found⟩ := List.mem_filterMap.mp drawn
    obtain ⟨op, -, draws⟩ := Option.bind_eq_some_iff.mp found
    exact contains_strike placed draws
  · rw [drawing_concat, apply_move_inside pace block reaches]
    rfl
  · rw [drawing_concat, apply_move_outside pace block outside]
    exact ⟨rfl, rfl⟩
  · rw [apply, Op.width?]
    split <;> simp [settle]

theorem drawing_traced_sketch :
    let canvas : Canvas := ⟨10, 8, ⟨5, 4⟩, 0, 1, []⟩
    let ops : List Op :=
      [.leaf ⟨"ahead"⟩ (.move 2), .leaf ⟨"lift"⟩ (.pen false), .leaf ⟨"back"⟩ (.move (-1)),
        .leaf ⟨"lower"⟩ (.pen true), .leaf ⟨"none"⟩ (.width 0), .leaf ⟨"off"⟩ (.move 20)]
    canvas.Placed ∧ canvas.Traced .instant ops := by
  intro canvas ops
  have set : (⟨10, 8, .origin, 90, 1, []⟩ : Canvas).withStart ⟨5, 4⟩ 0 = .ok canvas := rfl
  exact ⟨.withStart set, drawing_traced (.withStart set) .instant ops⟩

end Canvas

end BlockPlay

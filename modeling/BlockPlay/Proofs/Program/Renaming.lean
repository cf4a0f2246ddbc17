import BlockPlay.Proofs.Program.Walk

/-!
Programs with other names for their blocks. A renaming may give several blocks one name; it changes the
names and nothing else, and a walk goes through both programs turn by turn.
-/
namespace BlockPlay

namespace Op

mutual

/-- Every block gets a new name. -/
def rename (f : BlockId → BlockId) : Op → Op
  | leaf block action => leaf (f block) action
  | loop block count body => loop (f block) count (renameAll f body)

def renameAll (f : BlockId → BlockId) : List Op → List Op
  | [] => []
  | op :: ops => op.rename f :: renameAll f ops

end

variable (f : BlockId → BlockId)

@[simp] theorem block_rename (op : Op) : (op.rename f).block = f op.block := by
  cases op <;> simp only [rename, block]

@[simp] theorem isStart_rename (op : Op) : (op.rename f).isStart = op.isStart := by
  cases op with
  | leaf block action => cases action <;> rfl
  | loop block count body => rfl

theorem leafCounts_renameAll (ops : List Op) : leafCounts (renameAll f ops) = leafCounts ops := by
  induction ops using forest with
  | nil => rfl
  | leaf block action ops ih => simp only [renameAll, rename, leafCounts, leafCount, ih]
  | loop block count body ops inner ih =>
    simp only [renameAll, rename, leafCounts, leafCount, inner, ih]

theorem depths_renameAll (ops : List Op) : depths (renameAll f ops) = depths ops := by
  induction ops using forest with
  | nil => rfl
  | leaf block action ops ih => simp only [renameAll, rename, depths, depth, ih]
  | loop block count body ops inner ih => simp only [renameAll, rename, depths, depth, inner, ih]

theorem all_isStart_renameAll (ops : List Op) :
    (renameAll f ops).all isStart = ops.all isStart := by
  induction ops with
  | nil => rfl
  | cons op ops ih => simp only [renameAll, List.all_cons, isStart_rename, ih]

end Op

def Program.rename (f : BlockId → BlockId) (p : Program) : Program := ⟨Op.renameAll f p.ops⟩

def Frame.rename (f : BlockId → BlockId) (frame : Frame) : Frame :=
  ⟨Op.renameAll f frame.rest, Op.renameAll f frame.body, frame.passes⟩

namespace Cursor

variable (f : BlockId → BlockId)

def rename (c : Cursor) : Cursor := ⟨c.frames.map (Frame.rename f)⟩

def Turn.rename : Turn → Turn
  | .ended => .ended
  | .leaf op later => .leaf (op.rename f) (later.map (Frame.rename f))
  | .onward later => .onward (later.map (Frame.rename f))

theorem enters_renameAll (count : UInt32) (inner : List Op) :
    enters count (Op.renameAll f inner) = enters count inner := by
  rw [enters, enters, Op.leafCounts_renameAll]

theorem turn_rename (frames : List Frame) :
    turn (frames.map (Frame.rename f)) = (turn frames).rename f := by
  generalize taken : turn frames = t
  cases Taken.of_turn taken with
  | ended => rfl
  | again body n outer => rfl
  | finish body n outer single =>
    rcases n with _ | _ | n
    · rfl
    · rfl
    · omega
  | leaf block action rest body n outer => rfl
  | enter block count inner rest body n outer entered =>
    have same : enters count (Op.renameAll f inner) = true := (enters_renameAll f count inner).trans entered
    simp only [List.map_cons, Frame.rename, Op.renameAll, Op.rename, turn, if_pos same, Turn.rename]
  | skip block count inner rest body n outer skipped =>
    have same : enters count (Op.renameAll f inner) = false := (enters_renameAll f count inner).trans skipped
    simp only [List.map_cons, Frame.rename, Op.renameAll, Op.rename, turn, same, if_neg Bool.false_ne_true,
      Turn.rename]

theorem advance_eq (frames : List Frame) :
    advance frames = match turn frames with
      | .ended => (none, [])
      | .leaf op later => (some op, later)
      | .onward later => advance later := by
  rw [advance]
  split
  next taken => rw [taken]
  next op later taken => rw [taken]
  next later taken => rw [taken]

theorem advance_rename (frames : List Frame) :
    advance (frames.map (Frame.rename f)) =
      ((advance frames).1.map (Op.rename f), (advance frames).2.map (Frame.rename f)) := by
  fun_induction advance frames with
  | case1 frames taken =>
    rw [advance_eq, turn_rename, taken]
    rfl
  | case2 frames op later taken =>
    rw [advance_eq, turn_rename, taken]
    rfl
  | case3 frames later taken ih =>
    rw [advance_eq, turn_rename, taken]
    exact ih

theorem next_rename (c : Cursor) :
    (c.rename f).next = (c.next.1.map (Op.rename f), c.next.2.rename f) := by
  have advanced := advance_rename f c.frames
  simp only [next, rename, advanced]

end Cursor

end BlockPlay

import BlockPlay.Proofs.Program.Unroll

/-!
Programs as outlines: one line for each op, with the number of loops around it. A program is its
outline read back, when each op takes up the deeper lines right below its own.
-/
namespace BlockPlay

/-- The numbers that a game gets as they stand are finite. -/
def Action.Finite : Action → Prop
  | turn _ x | width x => x.isFinite
  | _ => True

namespace Op

mutual

/-- The number of leaves and loops. -/
def size : Op → Nat
  | leaf .. => 1
  | loop _ _ body => 1 + sizes body

def sizes : List Op → Nat
  | [] => 0
  | op :: ops => op.size + sizes ops

end

def fill (body : List Op) : Op → Op
  | leaf block action => leaf block action
  | loop block count _ => loop block count body

mutual

def outline (level : Nat) : Op → List (Nat × Op)
  | leaf block action => [(level, leaf block action)]
  | loop block count body => (level, loop block count []) :: outlines (level + 1) body

/-- The lines of ops that stand inside so many loops, in document order. -/
def outlines (level : Nat) : List Op → List (Nat × Op)
  | [] => []
  | op :: ops => op.outline level ++ outlines level ops

end

/-- The ops that the lines of an outline make up, each at its level. The deeper ones right after an op
are its body. -/
def hang : List (Nat × Op) → List (Nat × Op)
  | [] => []
  | (level, op) :: lines =>
    let later := hang lines
    (level, op.fill ((later.takeWhile (level < ·.1)).map Prod.snd)) :: later.dropWhile (level < ·.1)

def nest (lines : List (Nat × Op)) : List Op := (hang lines).map Prod.snd

theorem length_outlines (level : Nat) (ops : List Op) : (outlines level ops).length = sizes ops := by
  induction ops using forest generalizing level with
  | nil => rfl
  | leaf block action ops ih => simp [outlines, outline, sizes, size, ih, Nat.add_comm]
  | loop block count body ops inner ih =>
    simp [outlines, outline, sizes, size, inner, ih]
    omega

/-- Each leaf that runs has its line. -/
theorem mem_outlines_of_mem_unrolls {op : Op} {ops : List Op} (present : op ∈ unrolls ops) (level : Nat) :
    ∃ deeper, (deeper, op) ∈ outlines level ops := by
  induction ops using forest generalizing level with
  | nil => simp [unrolls] at present
  | leaf block action ops ih =>
    simp only [unrolls, unroll, List.cons_append, List.nil_append, List.mem_cons] at present
    rcases present with rfl | later
    · exact ⟨level, .head _⟩
    · obtain ⟨deeper, line⟩ := ih later level
      exact ⟨deeper, .tail _ line⟩
  | loop block count body ops inner ih =>
    simp only [unrolls, unroll, List.mem_append, List.mem_flatten, List.mem_replicate] at present
    simp only [outlines, outline, List.cons_append, List.mem_cons, List.mem_append]
    rcases present with ⟨pass, ⟨_, rfl⟩, inside⟩ | later
    · obtain ⟨deeper, line⟩ := inner inside (level + 1)
      exact ⟨deeper, .inr (.inl line)⟩
    · obtain ⟨deeper, line⟩ := ih later level
      exact ⟨deeper, .inr (.inr line)⟩

/-- No op of the lines can be taken up by an op at the level. -/
def Closed (level : Nat) (lines : List (Nat × Op)) : Prop :=
  ∀ first ∈ (hang lines).head?, first.1 ≤ level

theorem Closed.mono {level deeper : Nat} {lines : List (Nat × Op)} (closed : Closed level lines)
    (le : level ≤ deeper) : Closed deeper lines :=
  fun first present => Nat.le_trans (closed first present) le

theorem hang_cons {level : Nat} {lines rest : List (Nat × Op)} (op : Op) (body : List Op)
    (closed : Closed level rest)
    (below : hang lines = body.map (fun part => (level + 1, part)) ++ hang rest) :
    hang ((level, op) :: lines) = (level, op.fill body) :: hang rest := by
  have deeper : ∀ line ∈ body.map (fun part => (level + 1, part)), decide (level < line.1) = true := by
    intro line inside
    obtain ⟨part, _, rfl⟩ := List.mem_map.mp inside
    exact decide_eq_true (Nat.lt_succ_self level)
  have stop : (hang rest).takeWhile (level < ·.1) = [] ∧ (hang rest).dropWhile (level < ·.1) = hang rest := by
    cases after : hang rest with
    | nil => exact ⟨rfl, rfl⟩
    | cons first others =>
      have above : first.1 ≤ level := closed first (by simp [after])
      have shallow : ¬ decide (level < first.1) = true := by simpa using above
      exact ⟨List.takeWhile_cons_of_neg shallow, List.dropWhile_cons_of_neg shallow⟩
  have taken : (hang lines).takeWhile (level < ·.1) = body.map (fun part => (level + 1, part)) := by
    rw [below, List.takeWhile_append_of_pos deeper, stop.1, List.append_nil]
  have left : (hang lines).dropWhile (level < ·.1) = hang rest := by
    rw [below, List.dropWhile_append_of_pos deeper, stop.2]
  simp only [hang, taken, left, List.map_map, Function.comp_def, List.map_id']

private theorem closed_outlines {level : Nat} {ops : List Op} {lines : List (Nat × Op)}
    (closed : Closed level lines)
    (same : hang (outlines level ops ++ lines) = ops.map (fun op => (level, op)) ++ hang lines) :
    Closed level (outlines level ops ++ lines) := by
  intro first present
  rw [same] at present
  cases ops with
  | nil => exact closed first present
  | cons op ops =>
    obtain rfl : (level, op) = first := by simpa using present
    exact Nat.le_refl level

theorem hang_outlines {level : Nat} (ops : List Op) {lines : List (Nat × Op)}
    (closed : Closed level lines) :
    hang (outlines level ops ++ lines) = ops.map (fun op => (level, op)) ++ hang lines := by
  induction ops using forest generalizing level lines with
  | nil => rfl
  | leaf block action ops ih =>
    have later := ih closed
    have first := hang_cons (.leaf block action) [] (closed_outlines closed later) rfl
    simp only [outlines, outline, List.cons_append, List.nil_append, List.map_cons, first, later, fill]
  | loop block count body ops inner ih =>
    have later := ih closed
    have closed_later := closed_outlines closed later
    have below := inner (closed_later.mono (Nat.le_succ level))
    have first := hang_cons (.loop block count []) body closed_later below
    simp only [outlines, outline, List.cons_append, List.append_assoc, List.map_cons, first, later, fill]

/-- A program is its outline read back. -/
theorem nest_outlines (ops : List Op) : nest (outlines 0 ops) = ops := by
  have all := hang_outlines ops (show Closed 0 [] by simp [Closed, hang])
  rw [List.append_nil] at all
  simp [nest, all, hang, Function.comp_def]

end Op

end BlockPlay

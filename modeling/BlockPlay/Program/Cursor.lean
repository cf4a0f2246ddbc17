import BlockPlay.Program.Op

/-!
Walking a program leaf by leaf. A `Cursor` holds one frame for each list of ops that it is inside of;
`Cursor.next` takes turns until a leaf comes up, and ends because every turn lowers the work that the
frames still owe.
-/
namespace BlockPlay

/-- A list of ops in the middle of one of its passes. -/
structure Frame where
  rest : List Op
  body : List Op
  passes : Nat
  deriving Repr, Inhabited

structure Cursor where
  frames : List Frame
  deriving Repr, Inhabited

namespace Cursor

mutual

/-- The steps that a walk over an op can take. -/
def work : Op → Nat
  | .leaf .. => 1
  | .loop _ count body => 1 + count.toNat * (1 + works body)

def works : List Op → Nat
  | [] => 0
  | op :: ops => work op + works ops

end

/-- The steps that a frame still owes: this pass and the ones after it. -/
def owed (f : Frame) : Nat := 1 + works f.rest + (f.passes - 1) * (1 + works f.body)

def totalOwed : List Frame → Nat
  | [] => 0
  | f :: frames => owed f + totalOwed frames

theorem owed_again {body : List Op} {n : Nat} :
    owed ⟨body, body, n + 1⟩ < owed ⟨[], body, n + 2⟩ := by
  simp only [owed, works, Nat.add_sub_cancel, show n + 2 - 1 = n + 1 from rfl, Nat.add_mul]
  omega

theorem owed_enter {block : BlockId} {count : UInt32} {inner rest body : List Op}
    {n : Nat} (positive : count ≠ 0) :
    owed ⟨inner, inner, count.toNat⟩ + owed ⟨rest, body, n⟩
      < owed ⟨Op.loop block count inner :: rest, body, n⟩ := by
  have count_pos : 0 < count.toNat := by
    rcases Nat.eq_zero_or_pos count.toNat with zero | pos
    · exact absurd (UInt32.toNat_inj.mp zero) positive
    · exact pos
  obtain ⟨k, hk⟩ : ∃ k, count.toNat = k + 1 := ⟨count.toNat - 1, by omega⟩
  simp only [owed, works, work, hk, Nat.add_sub_cancel, Nat.add_mul]
  omega

/-- Whether a walk goes into a loop: one that repeats nothing or holds no leaf is stepped over. -/
def enters (count : UInt32) (inner : List Op) : Bool := count != 0 && decide (0 < Op.leafCounts inner)

/-- What one turn of a walk comes to: the end, a leaf, or frames from which it goes on. -/
inductive Turn where
  | ended
  | leaf (op : Op) (later : List Frame)
  | onward (later : List Frame)
  deriving Repr

/-- One turn: the innermost frame starts its next pass, ends, or takes its next op. -/
def turn : List Frame → Turn
  | [] => .ended
  | ⟨[], body, n + 2⟩ :: outer => .onward (⟨body, body, n + 1⟩ :: outer)
  | ⟨[], _, _⟩ :: outer => .onward outer
  | ⟨.leaf block action :: rest, body, n⟩ :: outer =>
    .leaf (.leaf block action) (⟨rest, body, n⟩ :: outer)
  | ⟨.loop _ count inner :: rest, body, n⟩ :: outer =>
    if enters count inner then .onward (⟨inner, inner, count.toNat⟩ :: ⟨rest, body, n⟩ :: outer)
    else .onward (⟨rest, body, n⟩ :: outer)

theorem totalOwed_turn {frames later : List Frame} (taken : turn frames = .onward later) :
    totalOwed later < totalOwed frames := by
  unfold turn at taken
  split at taken
  next => contradiction
  next body n outer =>
    cases taken
    exact Nat.add_lt_add_right owed_again _
  next body n outer _ =>
    cases taken
    simp only [totalOwed, owed]
    omega
  next => contradiction
  next block count inner rest body n outer =>
    split at taken
    next entered =>
      cases taken
      have positive : count ≠ 0 := by simp_all [enters]
      simp only [totalOwed]
      rw [← Nat.add_assoc]
      exact Nat.add_lt_add_right (owed_enter positive) _
    next =>
      cases taken
      simp only [totalOwed, owed, works, work]
      omega

def advance (frames : List Frame) : Option Op × List Frame :=
  match _ : turn frames with
  | .ended => (none, [])
  | .leaf op later => (some op, later)
  | .onward later => advance later
termination_by totalOwed frames
decreasing_by exact totalOwed_turn (by assumption)

def start (ops : List Op) : Cursor := ⟨[⟨ops, ops, 1⟩]⟩

/-- The number of lists that the cursor is inside of. -/
def depth (c : Cursor) : Nat := c.frames.length

def next (c : Cursor) : Option Op × Cursor :=
  let (op, frames) := advance c.frames
  (op, ⟨frames⟩)

end Cursor

end BlockPlay

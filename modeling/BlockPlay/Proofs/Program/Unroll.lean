import BlockPlay.Program.Cursor

/-!
Programs written out leaf by leaf. Which leaves there are depends on the counts of all loops around
them, which `leafCounts` leaves out: a loop can hold leaves and yet have none to run.
-/
namespace BlockPlay.Op

/-- Induction over a list of ops and, at each loop, over its body. -/
@[elab_as_elim]
theorem forest {motive : List Op → Prop} (nil : motive [])
    (leaf : ∀ block action ops, motive ops → motive (.leaf block action :: ops))
    (loop : ∀ block count body ops, motive body → motive ops →
      motive (.loop block count body :: ops)) : ∀ ops, motive ops
  | [] => nil
  | .leaf block action :: ops => leaf block action ops (forest nil leaf loop ops)
  | .loop block count body :: ops =>
    loop block count body ops (forest nil leaf loop body) (forest nil leaf loop ops)
termination_by ops => sizeOf ops

theorem isLeaf_of_mem_unrolls {op : Op} {ops : List Op} (present : op ∈ unrolls ops) : op.isLeaf := by
  induction ops using forest with
  | nil => simp [unrolls] at present
  | leaf block action ops ih =>
    simp only [unrolls, unroll, List.cons_append, List.nil_append, List.mem_cons] at present
    rcases present with rfl | later
    · rfl
    · exact ih later
  | loop block count body ops inner ih =>
    simp only [unrolls, unroll, List.mem_append, List.mem_flatten, List.mem_replicate] at present
    rcases present with ⟨pass, ⟨_, rfl⟩, inside⟩ | later
    · exact inner inside
    · exact ih later

theorem unroll_loop_eq_nil_iff {block : BlockId} {count : UInt32} {body : List Op} :
    (Op.loop block count body).unroll = [] ↔ count = 0 ∨ unrolls body = [] := by
  have zero : count.toNat = 0 ↔ count = 0 := by
    rw [← UInt32.toNat_inj]
    rfl
  simp only [unroll, List.flatten_eq_nil_iff, List.mem_replicate, and_imp]
  constructor
  · intro all
    by_cases none : count.toNat = 0
    · exact Or.inl (zero.mp none)
    · exact Or.inr (all _ none rfl)
  · rintro (rfl | empty) pass repeats rfl
    · exact absurd rfl repeats
    · exact empty

theorem unrolls_eq_nil_of_leafCounts {ops : List Op} (none : leafCounts ops = 0) :
    unrolls ops = [] := by
  induction ops using forest with
  | nil => rfl
  | leaf block action ops ih => simp [leafCounts, leafCount] at none
  | loop block count body ops inner ih =>
    simp only [leafCounts, leafCount, Nat.add_eq_zero_iff] at none
    rw [unrolls, unroll_loop_eq_nil_iff.mpr (Or.inr (inner none.1)), ih none.2]
    rfl

/-- A walk passes over nothing that would run. -/
theorem unroll_eq_nil_of_not_enters (block : BlockId) {count : UInt32} {body : List Op}
    (skipped : Cursor.enters count body = false) : (Op.loop block count body).unroll = [] := by
  rw [unroll_loop_eq_nil_iff]
  by_cases zero : count = 0
  · exact Or.inl zero
  · have none : leafCounts body = 0 := by simpa [Cursor.enters, zero] using skipped
    exact Or.inr (unrolls_eq_nil_of_leafCounts none)

end BlockPlay.Op

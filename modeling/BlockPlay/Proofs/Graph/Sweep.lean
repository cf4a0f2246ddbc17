import BlockPlay.Proofs.Graph.Naming
import Mathlib.Logic.Relation
import Mathlib.Data.List.Nodup

/-!
All blocks of a workspace, one after the other. A sweep takes the first of the pending blocks and puts the blocks
that it holds, real ones and shadows, in its place, so that it comes to each block once, however deeply it is nested.
In this order fresh names are given to the blocks without one, one name each, and nothing else is changed.
-/
namespace BlockPlay.Workspace

def Connection.held (c : Connection) : List Block := c.block.toList ++ c.shadow.toList

/-- The blocks in the inputs of a block and below it. -/
def Block.held (b : Block) : List Block :=
  b.inputs.flatMap (fun input => input.2.held) ++ b.next.toList.flatMap Connection.held

/-- One block is held by another, as the block or as the shadow of a connection. -/
inductive Block.Holds (b : Block) : Block → Prop
  | plugged {name : String} {c : Connection} {a : Block} (input : (name, c) ∈ b.inputs)
      (inside : c.block = some a ∨ c.shadow = some a) : b.Holds a
  | below {c : Connection} {a : Block} (next : b.next = some c)
      (inside : c.block = some a ∨ c.shadow = some a) : b.Holds a

section Sweep

variable {a b : Block} {blocks : List Block}

theorem Connection.mem_held {c : Connection} : a ∈ c.held ↔ c.block = some a ∨ c.shadow = some a := by
  rw [held, List.mem_append, Option.mem_toList, Option.mem_toList]

theorem Block.mem_held : a ∈ b.held ↔ b.Holds a := by
  simp only [held, List.mem_append, List.mem_flatMap, Option.mem_toList, Connection.mem_held]
  constructor
  · rintro (⟨⟨name, c⟩, input, inside⟩ | ⟨c, next, inside⟩)
    · exact .plugged input inside
    · exact .below next inside
  · rintro (⟨input, inside⟩ | ⟨next, inside⟩)
    · exact .inl ⟨_, input, inside⟩
    · exact .inr ⟨_, next, inside⟩

noncomputable def total : List Block → Nat
  | [] => 0
  | b :: rest => sizeOf b + total rest

theorem total_append (first second : List Block) : total (first ++ second) = total first + total second := by
  induction first with
  | nil => exact (Nat.zero_add _).symm
  | cons b first ih => rw [List.cons_append, total, ih, total, Nat.add_assoc]

theorem Connection.total_held (c : Connection) : total c.held ≤ sizeOf c := by
  obtain ⟨block, shadow⟩ := c
  cases block <;> cases shadow <;> simp [held, total, Connection.block, Connection.shadow] <;> omega

theorem total_inputs (inputs : Entries Connection) :
    total (inputs.flatMap fun input => input.2.held) ≤ sizeOf inputs := by
  induction inputs with
  | nil => exact Nat.zero_le _
  | cons input rest ih =>
    obtain ⟨name, c⟩ := input
    have first := c.total_held
    rw [List.flatMap_cons, total_append]
    simp only [List.cons.sizeOf_spec, Prod.mk.sizeOf_spec]
    omega

theorem Block.total_held (b : Block) : total b.held < sizeOf b := by
  obtain ⟨kind, id, fields, inputs, next⟩ := b
  have plugged := total_inputs inputs
  have below : total (next.toList.flatMap Connection.held) ≤ sizeOf next := by
    cases next with
    | none => exact Nat.zero_le _
    | some c =>
      have inside := c.total_held
      simp only [Option.toList, List.flatMap_singleton, Option.some.sizeOf_spec]
      omega
  rw [held, total_append, Block.mk.sizeOf_spec]
  simp only [Block.inputs, Block.next]
  omega

/-- The blocks in the order in which a list of pending ones comes to them. -/
def sweep : List Block → List Block
  | [] => []
  | b :: pending => b :: sweep (b.held ++ pending)
termination_by pending => total pending
decreasing_by
  rw [total_append]
  exact Nat.add_lt_add_right b.total_held _

/-- A sweep comes to the blocks it starts with and all that they hold. -/
theorem mem_sweep : a ∈ sweep blocks ↔ ∃ t ∈ blocks, Relation.ReflTransGen Block.Holds t a := by
  fun_induction sweep blocks with
  | case1 => simp
  | case2 b pending ih =>
    rw [List.mem_cons, ih]
    constructor
    · rintro (rfl | ⟨t, among, path⟩)
      · exact ⟨a, List.mem_cons_self, .refl⟩
      · rcases List.mem_append.mp among with inside | later
        · exact ⟨b, List.mem_cons_self, path.head (Block.mem_held.mp inside)⟩
        · exact ⟨t, List.mem_cons_of_mem _ later, path⟩
    -- A path from the block that is taken goes on through a block that is pending from now on.
    · rintro ⟨t, among, path⟩
      rcases List.mem_cons.mp among with rfl | later
      · rcases path.cases_head with rfl | ⟨c, holds, path⟩
        · exact .inl rfl
        · exact .inr ⟨c, List.mem_append_left _ (Block.mem_held.mpr holds), path⟩
      · exact .inr ⟨t, List.mem_append_right _ later, path⟩

theorem sweep_append (first second : List Block) : sweep (first ++ second) = sweep first ++ sweep second := by
  fun_induction sweep first with
  | case1 => rfl
  | case2 b pending ih => rw [List.cons_append, sweep, ← List.append_assoc, ih, List.cons_append]

theorem sweep_perm {others : List Block} (perm : blocks.Perm others) : (sweep blocks).Perm (sweep others) := by
  have cons (b : Block) (pending : List Block) : sweep (b :: pending) = sweep [b] ++ sweep pending :=
    sweep_append [b] pending
  induction perm with
  | nil => exact .refl _
  | @cons b first second _ ih =>
    rw [cons b first, cons b second]
    exact ih.append_left _
  | swap a b pending =>
    rw [cons b (a :: pending), cons a pending, cons a (b :: pending), cons b pending, ← List.append_assoc,
      ← List.append_assoc]
    exact List.perm_append_comm.append_right _
  | trans _ _ ih ih' => exact ih.trans ih'

/-- Pending blocks are visited in some order, each with what it holds pending from then on. -/
inductive Visits : List Block → List Block → Prop
  | done : Visits [] []
  | take {pending rest visited : List Block} {b : Block} (choice : pending.Perm (b :: rest))
      (later : Visits (b.held ++ rest) visited) : Visits pending (b :: visited)

theorem visits_sweep (pending : List Block) : Visits pending (sweep pending) := by
  fun_induction sweep pending with
  | case1 => exact .done
  | case2 b pending ih => exact .take (.refl _) ih

/-- Whichever of the pending blocks is taken first, all come to the same blocks, each as often. -/
theorem Visits.perm_sweep {pending visited : List Block} (visits : Visits pending visited) :
    visited.Perm (sweep pending) := by
  -- The sweep of a permuted list is permuted, so the block that is taken may as well stand in front.
  induction visits with
  | done =>
    rw [sweep]
  | @take pending rest visited b choice _ ih =>
    have taken := sweep_perm choice
    rw [sweep] at taken
    exact (ih.cons b).trans taken.symm

end Sweep

section Fill

variable {fresh : Nat → BlockId}

theorem fillBlocks_append (fresh : Nat → BlockId) (used : Nat) (first second : List Block) :
    fillBlocks fresh used (first ++ second) =
      ((fillBlocks fresh used first).1 ++ (fillBlocks fresh (fillBlocks fresh used first).2 second).1,
        (fillBlocks fresh (fillBlocks fresh used first).2 second).2) := by
  induction first generalizing used with
  | nil => rfl
  | cons b first ih => simp only [List.cons_append, fillBlocks, ih]

theorem Connection.fillBlocks_held (fresh : Nat → BlockId) (used : Nat) (c : Connection) :
    fillBlocks fresh used c.held = ((c.fill fresh used).1.held, (c.fill fresh used).2) := by
  obtain ⟨block, shadow⟩ := c
  cases block <;> cases shadow <;> rfl

theorem fillBlocks_inputs (fresh : Nat → BlockId) (used : Nat) (inputs : Entries Connection) :
    fillBlocks fresh used (inputs.flatMap fun input => input.2.held) =
      ((fillInputs fresh used inputs).1.flatMap fun input => input.2.held, (fillInputs fresh used inputs).2) := by
  induction inputs generalizing used with
  | nil => rfl
  | cons input rest ih =>
    obtain ⟨name, c⟩ := input
    simp only [List.flatMap_cons, fillBlocks_append, c.fillBlocks_held, ih, fillInputs]

/-- To fill a block is to give it a name and to fill what it holds. -/
theorem Block.fillBlocks_held (fresh : Nat → BlockId) (used : Nat) (b : Block) :
    fillBlocks fresh (nameOr fresh used b.id).2 b.held = ((b.fill fresh used).1.held, (b.fill fresh used).2) := by
  obtain ⟨kind, id, fields, inputs, next⟩ := b
  have below (used : Nat) : fillBlocks fresh used (next.toList.flatMap Connection.held) =
      ((fillConnection fresh used next).1.toList.flatMap Connection.held, (fillConnection fresh used next).2) := by
    cases next with
    | none => rfl
    | some c =>
      simp only [Option.toList, List.flatMap_singleton, c.fillBlocks_held, fillConnection]
  simp only [held, Block.id, Block.inputs, Block.next, fillBlocks_append, fillBlocks_inputs, below, Block.fill]

/-- Names one after the other: those that are there, and the next fresh one for each that is lacking. -/
def nameAll (fresh : Nat → BlockId) (used : Nat) : List BlockId → List BlockId × Nat
  | [] => ([], used)
  | id :: ids =>
    let named := nameOr fresh used id
    let others := nameAll fresh named.2 ids
    (named.1 :: others.1, others.2)

/-- The names of blocks and of all that they hold, in the order of a sweep. -/
def names (blocks : List Block) : List BlockId := (sweep blocks).map Block.id

/-- The names that have come in the place of those that were lacking. -/
def supplied (ids ids' : List BlockId) : List BlockId :=
  (ids.zip ids').filterMap fun (id, id') => if id.text = "" then some id' else none

def lacking (ids : List BlockId) : Nat := ids.countP (·.text = "")

theorem supplied_cons (id id' : BlockId) (ids ids' : List BlockId) :
    supplied (id :: ids) (id' :: ids') = (if id.text = "" then [id'] else []) ++ supplied ids ids' := by
  rw [supplied, List.zip_cons_cons, List.filterMap_cons]
  by_cases lacks : id.text = "" <;> simp [lacks, supplied]

theorem Block.id_fill (fresh : Nat → BlockId) (used : Nat) (b : Block) :
    (b.fill fresh used).1.id = (nameOr fresh used b.id).1 := by
  cases b
  rfl

/-- Blocks are filled in the order of a sweep. -/
theorem nameAll_names (fresh : Nat → BlockId) (used : Nat) (pending : List Block) :
    nameAll fresh used (names pending) =
      (names (fillBlocks fresh used pending).1, (fillBlocks fresh used pending).2) := by
  rw [names, names]
  fun_induction sweep pending generalizing used with
  | case1 =>
    rw [fillBlocks, sweep]
    rfl
  | case2 b pending ih =>
    -- What a block holds is filled right after it is named, before what else is pending.
    have onward := ih (nameOr fresh used b.id).2
    rw [fillBlocks_append, b.fillBlocks_held] at onward
    rw [List.map_cons, nameAll, onward, fillBlocks, sweep, List.map_cons, b.id_fill]

theorem named_nameAll {fresh : Nat → BlockId} (given : ∀ n, (fresh n).text ≠ "") {used : Nat} {ids : List BlockId}
    {id : BlockId} (among : id ∈ (nameAll fresh used ids).1) : id.text ≠ "" := by
  induction ids generalizing used with
  | nil => cases among
  | cons first ids ih =>
    rcases List.mem_cons.mp among with rfl | later
    · exact text_nameOr given used first
    · exact ih later

theorem used_nameAll (fresh : Nat → BlockId) (used : Nat) (ids : List BlockId) :
    (nameAll fresh used ids).2 = used + lacking ids := by
  induction ids generalizing used with
  | nil => rfl
  | cons id ids ih =>
    rw [nameAll, ih, lacking, lacking, List.countP_cons, nameOr]
    by_cases lacks : id.text = "" <;> simp [lacks]
    omega

/-- The names that were lacking are supplied by the fresh ones, in their order and each once. -/
theorem supplied_nameAll (fresh : Nat → BlockId) (used : Nat) (ids : List BlockId) :
    supplied ids (nameAll fresh used ids).1 = (List.range' used (lacking ids)).map fresh := by
  induction ids generalizing used with
  | nil => rfl
  | cons id ids ih =>
    rw [nameAll, supplied_cons, ih, lacking, lacking, List.countP_cons, nameOr]
    by_cases lacks : id.text = ""
    · simp [lacks, List.range'_succ]
    · simp [lacks]

end Fill

section Alike

variable {same : BlockId → BlockId → Prop} {blocks blocks' : List Block}

theorem HeldAlike.toList {block block' : Option Block} (alike : HeldAlike same block block') :
    List.Forall₂ (Block.Alike same) block.toList block'.toList := by
  cases alike with
  | none => exact .nil
  | some alike => exact .cons alike .nil

theorem Connection.Alike.held {c c' : Connection} (alike : c.Alike same c') :
    List.Forall₂ (Block.Alike same) c.held c'.held := by
  cases alike with
  | mk first second => exact List.rel_append first.toList second.toList

theorem InputsAlike.held {inputs inputs' : Entries Connection} (alike : InputsAlike same inputs inputs') :
    List.Forall₂ (Block.Alike same) (inputs.flatMap fun input => input.2.held)
      (inputs'.flatMap fun input => input.2.held) := by
  induction inputs generalizing inputs' with
  | nil =>
    cases alike
    exact .nil
  | cons input rest ih =>
    cases alike with
    | cons first others => exact List.rel_append first.held (ih others)

theorem Block.Alike.held {b b' : Block} (alike : b.Alike same b') :
    List.Forall₂ (Block.Alike same) b.held b'.held := by
  cases alike with
  | mk _ plugged below =>
    refine List.rel_append plugged.held ?_
    cases below with
    | none => exact .nil
    | some alike => exact List.rel_append alike.held .nil

theorem forall₂_sweep (alike : List.Forall₂ (Block.Alike same) blocks blocks') :
    List.Forall₂ (Block.Alike same) (sweep blocks) (sweep blocks') := by
  fun_induction sweep blocks generalizing blocks' with
  | case1 =>
    cases alike
    rw [sweep]
    exact .nil
  | case2 b pending ih =>
    cases alike with
    | cons first others =>
      rw [sweep]
      exact .cons first (ih (List.rel_append first.held others))

variable {fresh : Nat → BlockId}

mutual

/-- Filling changes nothing but names. -/
theorem Block.alike_fill (step : ∀ used id, same id (nameOr fresh used id).1) : (b : Block) → (used : Nat) →
    b.Alike same (b.fill fresh used).1
  | .mk _ id _ inputs next, used => .mk (step used id) (alike_fillInputs step inputs _) (alike_fillConnection step next _)

theorem Connection.alike_fill (step : ∀ used id, same id (nameOr fresh used id).1) : (c : Connection) →
    (used : Nat) → c.Alike same (c.fill fresh used).1
  | .mk block shadow, used => .mk (alike_fillBlock step block used) (alike_fillBlock step shadow _)

theorem alike_fillBlock (step : ∀ used id, same id (nameOr fresh used id).1) : (block : Option Block) →
    (used : Nat) → HeldAlike same block (fillBlock fresh used block).1
  | none, _ => .none
  | some b, used => .some (b.alike_fill step used)

theorem alike_fillConnection (step : ∀ used id, same id (nameOr fresh used id).1) : (next : Option Connection) →
    (used : Nat) → NextAlike same next (fillConnection fresh used next).1
  | none, _ => .none
  | some c, used => .some (c.alike_fill step used)

theorem alike_fillInputs (step : ∀ used id, same id (nameOr fresh used id).1) :
    (inputs : List (String × Connection)) → (used : Nat) → InputsAlike same inputs (fillInputs fresh used inputs).1
  | [], _ => .nil
  | (_, c) :: rest, used => .cons (c.alike_fill step used) (alike_fillInputs step rest _)

end

theorem alike_fillBlocks (step : ∀ used id, same id (nameOr fresh used id).1) (blocks : List Block) (used : Nat) :
    List.Forall₂ (Block.Alike same) blocks (fillBlocks fresh used blocks).1 := by
  induction blocks generalizing used with
  | nil => exact .nil
  | cons b rest ih => exact .cons (b.alike_fill step used) (ih _)

end Alike

/-- A name that is there is kept. -/
def Kept (id id' : BlockId) : Prop := id.text ≠ "" → id' = id

theorem kept_nameOr (fresh : Nat → BlockId) (used : Nat) (id : BlockId) : Kept id (nameOr fresh used id).1 := by
  intro named
  rw [nameOr, if_neg named]

/-- What becomes of blocks when each of them is to have a name. They are as before but for their names, and those
that are there are kept; the blocks that lack one, and no others, have fresh ones, each its own. -/
structure Completed (fresh : Nat → BlockId) (blocks filled : List Block) : Prop where
  alike : List.Forall₂ (Block.Alike Kept) blocks filled
  each : List.Forall₂ (Block.Alike Kept) (sweep blocks) (sweep filled)
  named : ∀ t ∈ filled, ∀ b, Relation.ReflTransGen Block.Holds t b → b.Named
  supplied : supplied (names blocks) (names filled) = (List.range (lacking (names blocks))).map fresh
  distinct : Function.Injective fresh → (Workspace.supplied (names blocks) (names filled)).Nodup

/-- Every list of blocks is so completed, those included that blocks hold as shadows behind real ones, with as many
fresh names as there are blocks without one. All blocks that are held come up in a sweep, and whichever of the pending
ones is taken first, each is visited as often as in the sweep. -/
theorem ofBlocks_completes {fresh : Nat → BlockId} (given : ∀ n, (fresh n).text ≠ "") (blocks : List Block) :
    Completed fresh blocks (ofBlocks fresh blocks).top ∧
      (fillBlocks fresh 0 blocks).2 = lacking (names blocks) ∧
      (∀ b, b ∈ sweep blocks ↔ ∃ t ∈ blocks, Relation.ReflTransGen Block.Holds t b) ∧
      Visits blocks (sweep blocks) ∧ ∀ visited, Visits blocks visited → visited.Perm (sweep blocks) := by
  have alike := alike_fillBlocks (kept_nameOr fresh) blocks 0
  have filled := nameAll_names fresh 0 blocks
  have supplied := supplied_nameAll fresh 0 (names blocks)
  have used := used_nameAll fresh 0 (names blocks)
  rw [filled, ← List.range_eq_range'] at supplied
  rw [filled, Nat.zero_add] at used
  have named (t : Block) (top : t ∈ (ofBlocks fresh blocks).top) (b : Block)
      (path : Relation.ReflTransGen Block.Holds t b) : b.Named := by
    have among : b.id ∈ (nameAll fresh 0 (names blocks)).1 := by
      rw [filled]
      exact List.mem_map_of_mem (mem_sweep.mpr ⟨t, top, path⟩)
    exact named_nameAll given among
  have distinct (injective : Function.Injective fresh) :
      (Workspace.supplied (names blocks) (names (ofBlocks fresh blocks).top)).Nodup := by
    rw [ofBlocks, supplied]
    exact List.nodup_range.map injective
  exact ⟨⟨alike, forall₂_sweep alike, named, supplied, distinct⟩, used, fun b => mem_sweep, visits_sweep blocks,
    fun visited => Visits.perm_sweep⟩

/-- A block with a shadow behind a real one, and another below it; all three lack a name. -/
theorem ofBlocks_completes_nest :
    let tally (n : Nat) : BlockId := ⟨String.ofList (List.replicate (n + 1) '|')⟩
    let nest (id first second third : BlockId) : List Block := [.mk "repeat" id [("NOTE", .null)]
      [("TIMES", .mk (some (.mk "number" first [] [] none)) (some (.mk "number" second [("NUM", .string "2")] [] none)))]
      (some (.mk (some (.mk "move" third [] [] none)) none))]
    (∀ n, (tally n).text ≠ "") ∧ Completed tally (nest ⟨"r"⟩ ⟨""⟩ ⟨""⟩ ⟨""⟩) (nest ⟨"r"⟩ ⟨"|"⟩ ⟨"||"⟩ ⟨"|||"⟩) := by
  intro tally nest
  have given (n : Nat) : (tally n).text ≠ "" := by simp [tally]
  exact ⟨given, (ofBlocks_completes given (nest ⟨"r"⟩ ⟨""⟩ ⟨""⟩ ⟨""⟩)).1⟩

end BlockPlay.Workspace

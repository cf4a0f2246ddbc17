import BlockPlay.Proofs.Graph.Sweep
import Mathlib.Data.List.GetD
import Mathlib.Data.List.Perm.Basic

/-!
Fresh names given in place. The blocks that have not been visited are on a stack, and the last one that was put there
is taken first; it is named where it stands, and the blocks that it holds are put on the stack. What is on the stack
is lent out of the workspace, which takes it back when all is done. So the same blocks are named as in a sweep, from
the same fresh names, and only the order in which these are dealt out is another one.
-/
namespace BlockPlay.Workspace

section Put

def putBlock : Option Block → List Block → Option Block × List Block
  | some _, b :: done => (some b, done)
  | _, done => (none, done)

/-- Puts blocks in the place of those that a connection holds, and returns those that are left over. -/
def Connection.put : Connection → List Block → Connection × List Block
  | .mk block shadow, done =>
    let first := putBlock block done
    let second := putBlock shadow first.2
    (.mk first.1 second.1, second.2)

def putConnection : Option Connection → List Block → Option Connection × List Block
  | none, done => (none, done)
  | some c, done =>
    let below := c.put done
    (some below.1, below.2)

def putInputs : Entries Connection → List Block → Entries Connection × List Block
  | [], done => ([], done)
  | (name, c) :: rest, done =>
    let first := c.put done
    let others := putInputs rest first.2
    ((name, first.1) :: others.1, others.2)

/-- The block with another name and with other blocks in the place of those that it holds. -/
def Block.put (id : BlockId) (done : List Block) : Block → Block
  | .mk kind _ fields inputs next =>
    let plugged := putInputs inputs done
    .mk kind id fields plugged.1 (putConnection next plugged.2).1

variable {same : BlockId → BlockId → Prop} {rest done : List Block}

theorem putBlock_spec {block : Option Block} (alike : List.Forall₂ (Block.Alike same) (block.toList ++ rest) done) :
    HeldAlike same block (putBlock block done).1 ∧
      (putBlock block done).1.toList ++ (putBlock block done).2 = done ∧
      List.Forall₂ (Block.Alike same) rest (putBlock block done).2 := by
  cases block with
  | none => exact ⟨.none, rfl, alike⟩
  | some b =>
    cases alike with
    | cons first others => exact ⟨.some first, rfl, others⟩

theorem Connection.put_spec {c : Connection} (alike : List.Forall₂ (Block.Alike same) (c.held ++ rest) done) :
    c.Alike same (c.put done).1 ∧ (c.put done).1.held ++ (c.put done).2 = done ∧
      List.Forall₂ (Block.Alike same) rest (c.put done).2 := by
  obtain ⟨block, shadow⟩ := c
  rw [held, List.append_assoc] at alike
  obtain ⟨first, whole, others⟩ := putBlock_spec alike
  obtain ⟨second, later, left⟩ := putBlock_spec others
  refine ⟨.mk first second, ?_, left⟩
  rw [held, List.append_assoc]
  exact (congrArg _ later).trans whole

theorem putConnection_spec {next : Option Connection}
    (alike : List.Forall₂ (Block.Alike same) (next.toList.flatMap Connection.held ++ rest) done) :
    NextAlike same next (putConnection next done).1 ∧
      (putConnection next done).1.toList.flatMap Connection.held ++ (putConnection next done).2 = done ∧
      List.Forall₂ (Block.Alike same) rest (putConnection next done).2 := by
  cases next with
  | none => exact ⟨.none, rfl, alike⟩
  | some c =>
    simp only [Option.toList, List.flatMap_singleton] at alike
    obtain ⟨below, whole, others⟩ := Connection.put_spec alike
    refine ⟨.some below, ?_, others⟩
    simpa only [putConnection, Option.toList, List.flatMap_singleton] using whole

theorem putInputs_spec {inputs : Entries Connection}
    (alike : List.Forall₂ (Block.Alike same) ((inputs.flatMap fun input => input.2.held) ++ rest) done) :
    InputsAlike same inputs (putInputs inputs done).1 ∧
      ((putInputs inputs done).1.flatMap fun input => input.2.held) ++ (putInputs inputs done).2 = done ∧
      List.Forall₂ (Block.Alike same) rest (putInputs inputs done).2 := by
  induction inputs generalizing done with
  | nil => exact ⟨.nil, rfl, alike⟩
  | cons input inputs ih =>
    obtain ⟨name, c⟩ := input
    rw [List.flatMap_cons, List.append_assoc] at alike
    obtain ⟨first, whole, others⟩ := Connection.put_spec alike
    obtain ⟨plugged, later, left⟩ := ih others
    refine ⟨.cons first plugged, ?_, left⟩
    rw [putInputs, List.flatMap_cons, List.append_assoc, later, whole]

/-- What is put into a block is what it holds then, and nothing else is changed. -/
theorem Block.put_spec {b : Block} {id : BlockId} (named : same b.id id)
    (alike : List.Forall₂ (Block.Alike same) b.held done) :
    b.Alike same (b.put id done) ∧ (b.put id done).held = done ∧ (b.put id done).id = id := by
  obtain ⟨kind, _, fields, inputs, next⟩ := b
  obtain ⟨plugged, whole, others⟩ := putInputs_spec alike
  rw [← List.append_nil (List.flatMap _ _)] at others
  obtain ⟨below, later, left⟩ := putConnection_spec others
  refine ⟨.mk named plugged below, ?_, rfl⟩
  rw [List.forall₂_nil_left_iff.mp left, List.append_nil] at later
  exact (congrArg _ later).trans whole

end Put

section Unique

variable {same same' : BlockId → BlockId → Prop} {blocks blocks' blocks'' : List Block}

theorem eq_of_toList {block block' : Option Block} (equal : block.toList = block'.toList) : block = block' := by
  cases block <;> cases block' <;> cases equal <;> rfl

theorem Connection.Alike.eq_of_held {c c' c'' : Connection} (first : c.Alike same c') (second : c.Alike same' c'')
    (equal : c'.held = c''.held) : c' = c'' := by
  cases first with
  | mk block shadow =>
    cases second with
    | mk block' shadow' =>
      obtain ⟨front, back⟩ := List.append_inj equal (block.toList.length_eq.symm.trans block'.toList.length_eq)
      exact congr (congrArg Connection.mk (eq_of_toList front)) (eq_of_toList back)

theorem InputsAlike.eq_of_held {inputs inputs' inputs'' : Entries Connection}
    (first : InputsAlike same inputs inputs') (second : InputsAlike same' inputs inputs'')
    (equal : (inputs'.flatMap fun input => input.2.held) = inputs''.flatMap fun input => input.2.held) :
    inputs' = inputs'' := by
  induction inputs generalizing inputs' inputs'' with
  | nil =>
    cases first
    cases second
    rfl
  | cons input rest ih =>
    cases first with
    | cons plug plugs =>
      cases second with
      | cons plug' plugs' =>
        rw [List.flatMap_cons, List.flatMap_cons] at equal
        obtain ⟨front, back⟩ := List.append_inj equal (plug.held.length_eq.symm.trans plug'.held.length_eq)
        rw [plug.eq_of_held plug' front, ih plugs plugs' back]

theorem NextAlike.eq_of_held {next next' next'' : Option Connection} (first : NextAlike same next next')
    (second : NextAlike same' next next'')
    (equal : next'.toList.flatMap Connection.held = next''.toList.flatMap Connection.held) : next' = next'' := by
  cases first with
  | none =>
    cases second
    rfl
  | some alike =>
    cases second with
    | some alike' =>
      simp only [Option.toList, List.flatMap_singleton] at equal
      rw [alike.eq_of_held alike' equal]

/-- What a block holds and its name make it up, apart from what is the same in all blocks like it. -/
theorem Block.Alike.eq_of_held {b b' b'' : Block} (first : b.Alike same b') (second : b.Alike same' b'')
    (named : b'.id = b''.id) (equal : b'.held = b''.held) : b' = b'' := by
  cases first with
  | mk _ plugged below =>
    cases second with
    | mk _ plugged' below' =>
      obtain ⟨front, back⟩ := List.append_inj equal (plugged.held.length_eq.symm.trans plugged'.held.length_eq)
      cases named
      rw [plugged.eq_of_held plugged' front, below.eq_of_held below' back]

/-- So blocks are made up by all the names in them. -/
theorem eq_of_names (first : List.Forall₂ (Block.Alike same) blocks blocks')
    (second : List.Forall₂ (Block.Alike same') blocks blocks'') (equal : names blocks' = names blocks'') :
    blocks' = blocks'' := by
  fun_induction sweep blocks generalizing blocks' blocks'' with
  | case1 =>
    cases first
    cases second
    rfl
  | case2 b pending ih =>
    cases first with
    | @cons _ b' _ pending' here others =>
      cases second with
      | @cons _ b'' _ pending'' here' others' =>
        rw [names, names, sweep, sweep, List.map_cons, List.map_cons] at equal
        obtain ⟨named, later⟩ := List.cons.inj equal
        have whole := ih (List.rel_append here.held others) (List.rel_append here'.held others') later
        obtain ⟨front, back⟩ := List.append_inj whole (here.held.length_eq.symm.trans here'.held.length_eq)
        rw [here.eq_of_held here' named front, back]

theorem eq_of_supplied {ids ids' ids'' : List BlockId} (first : List.Forall₂ Kept ids ids')
    (second : List.Forall₂ Kept ids ids'') (equal : supplied ids ids' = supplied ids ids'') : ids' = ids'' := by
  induction first generalizing ids'' with
  | nil =>
    cases second
    rfl
  | @cons id id' rest rest' kept others ih =>
    cases second with
    | @cons _ id'' _ rest'' kept' others' =>
      rw [supplied_cons, supplied_cons] at equal
      by_cases lacks : id.text = ""
      · rw [if_pos lacks, if_pos lacks] at equal
        obtain ⟨named, later⟩ := List.cons.inj equal
        rw [named, ih others' later]
      · rw [if_neg lacks, if_neg lacks] at equal
        rw [kept lacks, kept' lacks, ih others' equal]

end Unique

section Supplied

variable {same : BlockId → BlockId → Prop} {blocks done : List Block}

theorem names_append (first second : List Block) : names (first ++ second) = names first ++ names second := by
  rw [names, sweep_append, List.map_append, names, names]

theorem Block.Alike.id {b b' : Block} (alike : b.Alike same b') : same b.id b'.id := by
  cases alike with
  | mk named _ _ => exact named

theorem forall₂_names (alike : List.Forall₂ (Block.Alike same) blocks done) :
    List.Forall₂ same (names blocks) (names done) := by
  rw [names, names, List.forall₂_map_left_iff, List.forall₂_map_right_iff]
  exact (forall₂_sweep alike).imp fun _ _ => Block.Alike.id

theorem supplied_append (alike : List.Forall₂ (Block.Alike same) blocks done) (rest rest' : List Block) :
    supplied (names (blocks ++ rest)) (names (done ++ rest')) =
      supplied (names blocks) (names done) ++ supplied (names rest) (names rest') := by
  rw [names_append, names_append, supplied, List.zip_append (forall₂_names alike).length_eq, List.filterMap_append,
    supplied, supplied]

theorem supplied_reverse (alike : List.Forall₂ (Block.Alike same) blocks done) :
    (supplied (names blocks.reverse) (names done.reverse)).Perm (supplied (names blocks) (names done)) := by
  induction alike with
  | nil => exact .refl _
  | @cons b b' rest rest' first others ih =>
    have front := supplied_append (.cons first .nil) rest rest'
    have back := supplied_append (List.forall₂_reverse_iff.mpr others) [b] [b']
    rw [List.reverse_cons, List.reverse_cons, back]
    exact (ih.append_right _).trans (List.perm_append_comm.trans (.of_eq front.symm))

theorem supplied_names (b b' : Block) (rest rest' : List Block) :
    supplied (names (b :: rest)) (names (b' :: rest')) =
      (if b.id.text = "" then [b'.id] else []) ++ supplied (names (b.held ++ rest)) (names (b'.held ++ rest')) := by
  rw [names, names, sweep, sweep, List.map_cons, List.map_cons, supplied_cons, names, names]

theorem length_supplied {ids ids' : List BlockId} (equal : ids.length = ids'.length) :
    (supplied ids ids').length = lacking ids := by
  induction ids generalizing ids' with
  | nil => rfl
  | cons id ids ih =>
    cases ids' with
    | nil => cases equal
    | cons id' ids' =>
      rw [supplied_cons, List.length_append, ih (Nat.succ.inj equal), lacking, lacking, List.countP_cons]
      by_cases lacks : id.text = "" <;> simp [lacks, Nat.add_comm]

/-- The fresh names that have been used when one more block has been named. -/
theorem range_nameOr (fresh : Nat → BlockId) (used : Nat) (id : BlockId) :
    (List.range (nameOr fresh used id).2).map fresh =
      (List.range used).map fresh ++ if id.text = "" then [(nameOr fresh used id).1] else [] := by
  rw [nameOr]
  split
  · rw [List.range_succ, List.map_append, List.map_singleton]
  · rw [List.append_nil]

end Supplied

/-- The blocks on the stack, from its top, and how many fresh names have been used. The blocks on the stack are lent,
and all is made whole again when they are put back with their names. -/
structure Worklist where
  pending : List Block
  used : Nat
  restore : List Block → List Block

namespace Worklist

def start (blocks : List Block) : Worklist where
  pending := blocks.reverse
  used := 0
  restore := List.reverse

/-- The block on top of the stack is named, and the blocks that it holds are put there, the last of them on top. These
are put back into the block before it is put back itself. -/
def step (fresh : Nat → BlockId) (w : Worklist) : Worklist :=
  match w.pending with
  | [] => w
  | b :: rest =>
    let named := nameOr fresh w.used b.id
    { pending := b.held.reverse ++ rest
      used := named.2
      restore := fun done =>
        w.restore (b.put named.1 (done.take b.held.length).reverse :: done.drop b.held.length) }

theorem total_reverse (blocks : List Block) : total blocks.reverse = total blocks := by
  induction blocks with
  | nil => rfl
  | cons b rest ih => rw [List.reverse_cons, total_append, ih, total, total, total, Nat.add_zero, Nat.add_comm]

theorem total_step (fresh : Nat → BlockId) {w : Worklist} (more : w.pending ≠ []) :
    total (w.step fresh).pending < total w.pending := by
  obtain ⟨b, rest, taken⟩ := List.exists_cons_of_ne_nil more
  simp only [step, taken, total_append, total_reverse, total]
  exact Nat.add_lt_add_right b.total_held _

/-- Steps until nothing is on the stack. -/
def run (fresh : Nat → BlockId) (w : Worklist) : Worklist :=
  if w.pending = [] then w else run fresh (w.step fresh)
termination_by total w.pending
decreasing_by exact total_step fresh ‹_›

/-- What holds of a work-list on the way, for any blocks that may come back. The whole will be like the blocks that
there were; and the names that it will have instead of lacking ones are the fresh ones used so far and those that come
back. -/
structure Sound (fresh : Nat → BlockId) (blocks : List Block) (w : Worklist) : Prop where
  alike {done : List Block} (back : List.Forall₂ (Block.Alike Kept) w.pending done) :
    List.Forall₂ (Block.Alike Kept) blocks (w.restore done)
  dealt {done : List Block} (back : List.Forall₂ (Block.Alike Kept) w.pending done) :
    (supplied (names blocks) (names (w.restore done))).Perm
      ((List.range w.used).map fresh ++ supplied (names w.pending) (names done))

variable {fresh : Nat → BlockId} {blocks : List Block} {w : Worklist}

theorem sound_start (fresh : Nat → BlockId) (blocks : List Block) : Sound fresh blocks (start blocks) where
  alike back := List.forall₂_reverse_iff.mp (by rwa [start, List.reverse_reverse])
  dealt {done} back := by
    have turned := supplied_reverse back
    rw [start, List.reverse_reverse] at turned
    exact turned

/-- What comes back is what is put into the block, turned round, and what was below it on the stack. -/
theorem split_back {b : Block} {rest done : List Block}
    (back : List.Forall₂ (Block.Alike Kept) (b.held.reverse ++ rest) done) :
    List.Forall₂ (Block.Alike Kept) b.held (done.take b.held.length).reverse ∧
      List.Forall₂ (Block.Alike Kept) rest (done.drop b.held.length) := by
  have front := List.forall₂_take b.held.length back
  have later := List.forall₂_drop b.held.length back
  rw [List.take_left' b.held.length_reverse] at front
  rw [List.drop_left' b.held.length_reverse] at later
  refine ⟨List.forall₂_reverse_iff.mp ?_, later⟩
  rwa [List.reverse_reverse]

theorem Sound.step (sound : Sound fresh blocks w) : Sound fresh blocks (w.step fresh) := by
  obtain ⟨pending, used, restore⟩ := w
  cases pending with
  | nil => exact sound
  | cons b rest =>
    have named := kept_nameOr fresh used b.id
    refine ⟨fun back => ?alike, fun {done} back => ?dealt⟩
    case alike =>
      obtain ⟨front, later⟩ := split_back back
      exact sound.alike (.cons (Block.put_spec named front).1 later)
    case dealt =>
      obtain ⟨front, later⟩ := split_back back
      obtain ⟨alike, inside, renamed⟩ := Block.put_spec named front
      have whole := sound.dealt (.cons alike later)
      rw [supplied_names, inside, renamed, supplied_append front, ← List.append_assoc, ← range_nameOr] at whole
      -- The stack comes to the blocks in `b` from the last one on, so their names are supplied in another order.
      have turned := supplied_reverse front
      have apart := supplied_append (List.forall₂_reverse_iff.mpr front) rest (done.drop b.held.length)
      rw [List.reverse_reverse] at turned apart
      rw [List.take_append_drop] at apart
      refine whole.trans (List.Perm.append_left _ ?_)
      rw [Worklist.step, apart]
      exact turned.symm.append_right _

theorem Sound.run (sound : Sound fresh blocks w) : Sound fresh blocks (w.run fresh) := by
  fun_induction Worklist.run fresh w with
  | case1 => exact sound
  | case2 w _ ih => exact ih sound.step

theorem pending_run (fresh : Nat → BlockId) (w : Worklist) : (w.run fresh).pending = [] := by
  fun_induction run fresh w with
  | case1 w ended => exact ended
  | case2 w _ ih => exact ih

end Worklist

section Order

variable {order : List Nat}

theorem map_getD_range (order : List Nat) : (List.range order.length).map (fun k => order.getD k k) = order := by
  apply List.ext_getElem
  · rw [List.length_map, List.length_range]
  · intro k _ inside
    rw [List.getElem_map, List.getElem_range, List.getD_eq_getElem _ _ inside]

theorem injective_getD (perm : order.Perm (List.range order.length)) : Function.Injective fun k => order.getD k k := by
  have distinct : order.Nodup := perm.nodup_iff.mpr List.nodup_range
  have bound {k : Nat} (inside : k < order.length) : order[k] < order.length :=
    List.mem_range.mp (perm.mem_iff.mp (List.getElem_mem inside))
  intro i j equal
  dsimp only at equal
  rcases Nat.lt_or_ge i order.length with first | first <;> rcases Nat.lt_or_ge j order.length with second | second
  · rw [List.getD_eq_getElem _ _ first, List.getD_eq_getElem _ _ second] at equal
    exact distinct.getElem_inj_iff.mp equal
  · rw [List.getD_eq_getElem _ _ first, List.getD_eq_default _ _ second] at equal
    exact absurd (bound first) (by omega)
  · rw [List.getD_eq_default _ _ first, List.getD_eq_getElem _ _ second] at equal
    exact absurd (bound second) (by omega)
  · rwa [List.getD_eq_default _ _ first, List.getD_eq_default _ _ second] at equal

/-- What is dealt out from the first fresh names, each once, is dealt out in some order of their numbers. -/
theorem exists_order {fresh : Nat → BlockId} {count : Nat} {dealt : List BlockId}
    (perm : dealt.Perm ((List.range count).map fresh)) :
    ∃ order : Nat → Nat, Function.Injective order ∧ ((List.range count).map order).Perm (List.range count) ∧
      dealt = (List.range count).map (fresh ∘ order) := by
  have apart := congrFun (congrFun (List.eq_map_comp_perm fresh) dealt) (List.range count)
  obtain ⟨order, rfl, numbers⟩ := apart.mpr perm
  have whole : order.length = count := by rw [numbers.length_eq, List.length_range]
  subst whole
  refine ⟨fun k => order.getD k k, injective_getD numbers, ?_, ?_⟩
  · rwa [map_getD_range]
  · rw [← List.map_map, map_getD_range]

end Order

/-- The blocks are filled in place: the work-list comes to an end, and then the workspace is the one that a sweep
gives when the same fresh names are dealt out in another order. -/
theorem worklist_fills (fresh : Nat → BlockId) (blocks : List Block) :
    let last := (Worklist.start blocks).run fresh
    last.pending = [] ∧ last.used = lacking (names blocks) ∧
      ∃ order : Nat → Nat, Function.Injective order ∧
        ((List.range last.used).map order).Perm (List.range last.used) ∧
        ⟨last.restore []⟩ = ofBlocks (fresh ∘ order) blocks := by
  intro last
  have ended : last.pending = [] := Worklist.pending_run fresh _
  have sound : last.Sound fresh blocks := (Worklist.sound_start fresh blocks).run
  have back : List.Forall₂ (Block.Alike Kept) last.pending [] := by
    rw [ended]
    exact .nil
  have alike := sound.alike back
  have dealt := sound.dealt back
  have none : supplied (names []) (names []) = [] := by
    rw [names, sweep]
    rfl
  rw [ended, none, List.append_nil] at dealt
  have used : last.used = lacking (names blocks) := by
    rw [← length_supplied (forall₂_names alike).length_eq, dealt.length_eq, List.length_map, List.length_range]
  obtain ⟨order, injective, numbers, dealt⟩ := exists_order dealt
  refine ⟨ended, used, order, injective, numbers, ?_⟩
  -- A sweep with this order supplies the same names, and blocks that are like the same ones are told by their names.
  have alike' := alike_fillBlocks (kept_nameOr (fresh ∘ order)) blocks 0
  have dealt' := supplied_nameAll (fresh ∘ order) 0 (names blocks)
  rw [nameAll_names, ← used, ← List.range_eq_range', ← dealt] at dealt'
  have equal := eq_of_supplied (forall₂_names alike) (forall₂_names alike') dealt'.symm
  rw [ofBlocks, eq_of_names alike alike' equal]

end BlockPlay.Workspace

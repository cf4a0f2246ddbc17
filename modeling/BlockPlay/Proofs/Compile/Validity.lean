import BlockPlay.Compile.Validate
import BlockPlay.Proofs.Compile.Fault
import BlockPlay.Proofs.Compile.Layers

/-!
Compiled programs before the validator. A compiled program is not too deep for it and all its numbers are
finite, so that what is left to object to can be read off the blocks of the unfolding.
-/
namespace BlockPlay

namespace Op

/-- The levels of a program are those of its loops and one more. -/
theorem depths_le {level max : Nat} {ops : List Op} (within : level ≤ max)
    (loops : ∀ line ∈ outlines level ops, line.2.isLeaf = false → line.1 < max) :
    level + depths ops ≤ max + 1 := by
  induction ops using forest generalizing level with
  | nil => exact Nat.le_succ_of_le within
  | leaf block action ops ih =>
    have later := ih within fun line present => loops line (.tail _ present)
    simp only [depths, depth]
    omega
  | loop block count body ops inner ih =>
    simp only [outlines, outline, List.cons_append, List.forall_mem_cons, List.forall_mem_append] at loops
    obtain ⟨shallow, inside, outside⟩ := loops
    have deeper := inner (shallow rfl) inside
    have later := ih within outside
    simp only [depths, depth]
    omega

end Op

namespace Limits

/-- What is wrong with an op, whatever is wrong in its body. -/
def offence? (limits : Limits) : Op → Option ValidationError
  | .leaf block action =>
    match checkLeaf block action with
    | .ok () => none
    | .error e => some e
  | .loop block count _ =>
    if limits.maxRepeat < count then some (.repeatTooLarge block count limits.maxRepeat) else none

/-- A program is judged line by line. -/
theorem checkAll_eq (limits : Limits) (level : Nat) (ops : List Op) :
    limits.checkAll ops =
      ((Op.outlines level ops).findSome? (limits.offence? ·.2)).elim (.ok ()) .error := by
  induction ops using Op.forest generalizing level with
  | nil => rfl
  | leaf block action ops ih =>
    have line : limits.offence? (.leaf block action) =
        match checkLeaf block action with
        | .ok () => none
        | .error e => some e := rfl
    simp only [checkAll, check, Op.outlines, Op.outline, List.cons_append, List.nil_append,
      List.findSome?_cons, line]
    cases checkLeaf block action with
    | ok => exact ih level
    | error e => rfl
  | loop block count body ops inner ih =>
    have line : limits.offence? (.loop block count []) =
        if limits.maxRepeat < count then some (.repeatTooLarge block count limits.maxRepeat)
        else none := rfl
    simp only [checkAll, check, Op.outlines, Op.outline, List.cons_append, List.findSome?_cons,
      List.findSome?_append, line]
    by_cases large : limits.maxRepeat < count
    · simp only [if_pos large]
      rfl
    · simp only [if_neg large]
      rw [inner (level + 1), ih level]
      cases (Op.outlines (level + 1) body).findSome? (limits.offence? ·.2) with
      | none => rfl
      | some e => rfl

theorem validate_error_iff {limits : Limits} {p : Program} (shallow : p.depth ≤ limits.maxDepth)
    (e : ValidationError) :
    limits.validate p = .error e ↔
      if p.ops.all Op.isStart then e = .empty
      else (Op.outlines 0 (judged p.ops)).findSome? (limits.offence? ·.2) = some e := by
  unfold validate
  split
  next => simp [eq_comm]
  next =>
    rw [if_neg (Nat.not_lt.mpr shallow), checkAll_eq limits 0]
    cases (Op.outlines 0 (judged p.ops)).findSome? (limits.offence? ·.2) with
    | none => simp
    | some cause => simp

end Limits

theorem Argument.isFinite_read {Node : Type} (a : Argument) (fallback : a.default.isFinite)
    (g : BlockGraph Node) (node : Node) : (a.read g node).isFinite := by
  unfold read
  cases found : g.number? a.names node with
  | none => exact fallback
  | some x => exact BlockGraph.isFinite_number? found

theorem BlockGraph.finite_action? {Node : Type} {g : BlockGraph Node} {node : Node} {c : BlockClass}
    {action : Action} (does : g.action? node c = some action) : action.Finite := by
  cases c <;> cases does
  case turnLeft => exact Argument.degrees.isFinite_read rfl g node
  case turnRight => exact Argument.degrees.isFinite_read rfl g node
  case width => exact Argument.width.isFinite_read rfl g node
  all_goals trivial

namespace Compile

open Stream' (Seq)

variable {Node : Type} {g : BlockGraph Node} {config : Config}

/-- What a validator objects to in a block that compiles. -/
def objection? (g : BlockGraph Node) (config : Config) (limits : Limits) (v : Visit Node) :
    Option ValidationError :=
  match config.classify (g.kind v.node) with
  | some .start => some (.misplacedStart (g.id v.node))
  | some .loop =>
    if limits.maxRepeat < g.count v.node then
      some (.repeatTooLarge (g.id v.node) (g.count v.node) limits.maxRepeat)
    else none
  | some .width =>
    if Argument.width.read g v.node ≤ 0 then
      some (.invalidNumber (g.id v.node) .width (Argument.width.read g v.node))
    else none
  | _ => none

theorem offence?_line {v : Visit Node} {line : Nat × Op} (stands : line? g config v = some line)
    (limits : Limits) : limits.offence? line.2 = objection? g config limits v := by
  simp only [line?, op?, Option.map_map, Option.map_eq_some_iff] at stands
  obtain ⟨c, known, rfl⟩ := stands
  have degrees := Argument.degrees.isFinite_read rfl g v.node
  have width := Argument.width.isFinite_read rfl g v.node
  simp only [objection?, known, Function.comp]
  cases c <;> simp [BlockGraph.action?, Limits.offence?, Limits.checkLeaf, degrees, width]
  case width => by_cases thin : Argument.width.read g v.node ≤ 0 <;> simp [thin]

theorem findSome?_offence {visited : List (Visit Node)} {lines : List (Nat × Op)}
    (made : visited.map (line? g config) = lines.map some) (limits : Limits) :
    lines.findSome? (limits.offence? ·.2) = visited.findSome? (objection? g config limits) := by
  induction visited generalizing lines with
  | nil =>
    obtain rfl : lines = [] := by simpa using made.symm
    rfl
  | cons v rest ih =>
    cases lines with
    | nil => cases made
    | cons line others =>
      obtain ⟨stands, more⟩ := List.cons.inj made
      rw [List.findSome?_cons, List.findSome?_cons, offence?_line stands, ih more]

theorem line?_cases {v : Visit Node} {line : Nat × Op} (stands : line? g config v = some line) :
    (∃ c action, g.action? v.node c = some action ∧ line = (v.level, .leaf (g.id v.node) action)) ∨
      config.classify (g.kind v.node) = some .loop ∧
        line = (v.level, .loop (g.id v.node) (g.count v.node) []) := by
  simp only [line?, op?, Option.map_map, Option.map_eq_some_iff, Function.comp] at stands
  obtain ⟨c, known, rfl⟩ := stands
  cases does : g.action? v.node c with
  | some action => exact .inl ⟨c, action, does, rfl⟩
  | none =>
    obtain rfl := action?_eq_none_iff.mp does
    exact .inr ⟨known, rfl⟩

theorem level_of_loop {v : Visit Node} {line : Nat × Op} (stands : line? g config v = some line)
    (fine : fault? g config v = none) (loop : line.2.isLeaf = false) : line.1 < config.maxDepth := by
  rcases line?_cases stands with ⟨c, action, -, rfl⟩ | ⟨known, rfl⟩
  · cases loop
  · simpa [fault?, known] using fine

theorem finite_of_leaf {v : Visit Node} {level : Nat} {block : BlockId} {action : Action}
    (stands : line? g config v = some (level, .leaf block action)) : action.Finite := by
  rcases line?_cases stands with ⟨c, named, does, same⟩ | ⟨-, same⟩
  · cases same
    exact BlockGraph.finite_action? does
  · cases same

theorem sound_line {visited : List (Visit Node)} {lines : List (Nat × Op)}
    (made : visited.map (line? g config) = lines.map some)
    (fine : ∀ v ∈ visited, fault? g config v = none) {line : Nat × Op} (present : line ∈ lines) :
    ∃ v, line? g config v = some line ∧ fault? g config v = none := by
  have placed := List.mem_map_of_mem (f := some) present
  rw [← made] at placed
  obtain ⟨v, inside, stands⟩ := List.mem_map.mp placed
  exact ⟨v, stands, fine v inside⟩

theorem depths_of_lines {visited : List (Visit Node)} {ops : List Op}
    (made : visited.map (line? g config) = (Op.outlines 0 ops).map some)
    (fine : ∀ v ∈ visited, fault? g config v = none) : Op.depths ops ≤ config.maxDepth + 1 := by
  have levels := Op.depths_le (Nat.zero_le config.maxDepth) fun line present loop => by
    obtain ⟨v, stands, sound⟩ := sound_line made fine present
    exact level_of_loop stands sound loop
  rwa [Nat.zero_add] at levels

/-- The blocks that a compilation has visited, line by line. -/
theorem compiled_lines {compiler : Compiler} {p : Program} (compiled : (compiler.compile g).1 = .ok p) :
    ∃ start, Compiler.start? compiler.config g = some start ∧
      ((unfolding g compiler.config start).take compiler.config.maxBlocks).map
        (line? g compiler.config) = (Op.outlines 0 p.ops).map some ∧
      ∀ v ∈ (unfolding g compiler.config start).take compiler.config.maxBlocks,
        fault? g compiler.config v = none := by
  simp only [Compiler.compile] at compiled
  cases found : Compiler.start? compiler.config g with
  | none => simp [found] at compiled
  | some start =>
    simp only [found] at compiled
    obtain ⟨covers, -⟩ := chain_explains g compiler.config compiler.config.maxBlocks 0 (some start) []
    cases ended : (chain g compiler.config compiler.config.maxBlocks 0 (some start)).ops with
    | error e => simp [ended, Except.map] at compiled
    | ok ops =>
      obtain rfl : (⟨ops⟩ : Program) = p := by simpa [ended, Except.map] using compiled
      have covered := covers ops ended
      exact ⟨start, rfl, map_of_mapM covered.unfolded.1,
        List.findSome?_eq_none_iff.mp covered.findSome?⟩

theorem objection?_ne {limits : Limits} {v : Visit Node} {e : ValidationError}
    (raised : objection? g config limits v = some e) :
    e ≠ .empty ∧ (∀ depth max, e ≠ .tooDeep depth max) ∧
      ∀ block x, e ≠ .invalidNumber block .degrees x := by
  unfold objection? at raised
  split at raised
  next =>
    cases raised
    exact ⟨nofun, nofun, nofun⟩
  next =>
    split at raised <;> cases raised
    exact ⟨nofun, nofun, nofun⟩
  next =>
    split at raised <;> cases raised
    exact ⟨nofun, nofun, fun block x same => by cases same⟩
  next => cases raised

/-- The validator passes over the line of the block that a compilation starts with. -/
theorem judged_lines {start : Node} {ops : List Op} {n : Nat}
    (known : config.classify (g.kind start) = some .start)
    (made : ((unfolding g config start).take n).map (line? g config) =
      (Op.outlines 0 ops).map some) :
    ((unfolding g config start).take n).tail.map (line? g config) =
      (Op.outlines 0 (Limits.judged ops)).map some := by
  cases ops with
  | nil =>
    rw [List.map_tail, made]
    rfl
  | cons op ops =>
    cases n with
    | zero => cases op <;> cases made
    | succ n =>
      have does : g.action? start .start = some .start := rfl
      obtain ⟨-, line, -⟩ := visit_leaf 0 known does
      rw [unfolding, take_visits, List.map_cons, line] at made
      rw [unfolding, take_visits, List.tail_cons]
      cases op with
      | leaf block action =>
        obtain ⟨first, rest⟩ := List.cons.inj made
        cases first
        exact rest
      | loop block count body =>
        obtain ⟨first, -⟩ := List.cons.inj made
        cases first

theorem validate_iff_objection {limits : Limits} {start : Node} {p : Program} {n : Nat}
    (known : config.classify (g.kind start) = some .start)
    (made : ((unfolding g config start).take n).map (line? g config) =
      (Op.outlines 0 p.ops).map some) (shallow : p.depth ≤ limits.maxDepth) (e : ValidationError) :
    limits.validate p = .error e ↔
      if p.ops.all Op.isStart then e = .empty
      else ((unfolding g config start).take n).tail.findSome? (objection? g config limits) = some e := by
  rw [← findSome?_offence (judged_lines known made)]
  exact Limits.validate_error_iff shallow e

/-- A compiled program is not too deep for a validator that allows as many loops as the compiler did, and
its numbers are finite. If it has anything but starts, the validator objects to the first block after the
start that is another start, a loop with too many repeats or a width that is not positive. -/
theorem validate_compiled {compiler : Compiler} {p : Program}
    (compiled : (compiler.compile g).1 = .ok p) :
    let config := compiler.config
    p.depth ≤ config.maxDepth + 1 ∧
    (∀ level block action, (level, .leaf block action) ∈ Op.outlines 0 p.ops → action.Finite) ∧
    (config.maxDepth ≤ 32 →
      (validate p = .error .empty ↔ p.ops.all Op.isStart) ∧
      (∀ depth max, validate p ≠ .error (.tooDeep depth max)) ∧
      (∀ block x, validate p ≠ .error (.invalidNumber block .degrees x)) ∧
      ∃ start, Compiler.start? config g = some start ∧ (¬ p.ops.all Op.isStart →
        ∀ e, validate p = .error e ↔ ((unfolding g config start).take config.maxBlocks).tail.findSome?
          (objection? g config .default) = some e)) := by
  intro config
  obtain ⟨start, found, made, fine⟩ := compiled_lines compiled
  have depth : p.depth ≤ config.maxDepth + 1 := depths_of_lines made fine
  refine ⟨depth, fun level block action present => ?_, fun shallow => ?_⟩
  · obtain ⟨v, stands, -⟩ := sound_line made fine present
    exact finite_of_leaf stands
  · have known : config.classify (g.kind start) = some .start := by
      simpa using List.find?_some found
    have deep : p.depth ≤ Limits.default.maxDepth := Nat.le_trans depth (Nat.succ_le_succ shallow)
    have judge := validate_iff_objection known made deep
    have raised {e : ValidationError} (rejected : validate p = .error e) :
        p.ops.all Op.isStart ∧ e = .empty ∨ ∃ v, objection? g config .default v = some e := by
      have cause := (judge e).mp rejected
      split at cause
      next all => exact .inl ⟨all, cause⟩
      next =>
        obtain ⟨v, -, objects⟩ := List.exists_of_findSome?_eq_some cause
        exact .inr ⟨v, objects⟩
    refine ⟨⟨fun rejected => ?_, fun all => ?_⟩, fun depth max rejected => ?_,
      fun block x rejected => ?_, start, found, fun more e => ?_⟩
    · rcases raised rejected with ⟨all, -⟩ | ⟨v, objects⟩
      · exact all
      · exact absurd rfl (objection?_ne objects).1
    · exact (judge .empty).mpr (by rw [if_pos all])
    · rcases raised rejected with ⟨-, same⟩ | ⟨v, objects⟩
      · cases same
      · exact (objection?_ne objects).2.1 depth max rfl
    · rcases raised rejected with ⟨-, same⟩ | ⟨v, objects⟩
      · cases same
      · exact (objection?_ne objects).2.2 block x rfl
    · have all := judge e
      rwa [if_neg more] at all

/-- A start block above a brush that is made as wide as nothing. -/
def faint : BlockGraph String where
  top := ["start"]
  id kind := ⟨kind⟩
  kind kind := kind
  next? kind := if kind = "start" then some "brush" else none
  input? _ _ := none
  field? kind name := if kind = "brush" ∧ name = "WIDTH" then some (.number 0) else none

def painting : Config := ⟨[(.start, ["start"]), (.width, ["brush"])], 5, 32⟩

theorem start?_faint : Compiler.start? painting faint = some "start" := by
  decide

theorem compile_faint : ((⟨painting, 7, true⟩ : Compiler).compile faint).1 =
    .ok ⟨[.leaf ⟨"start"⟩ .start, .leaf ⟨"brush"⟩ (.width 0)]⟩ := by
  have start : painting.classify (faint.kind "start") = some .start := by decide
  have brush : painting.classify (faint.kind "brush") = some .width := by decide
  have next : faint.next? "start" = some "brush" := by decide
  have last : faint.next? "brush" = none := by decide
  have width : Argument.width.read faint "brush" = 0 := rfl
  simp only [Compiler.compile, start?_faint]
  change (chain faint painting 5 0 (some "start")).ops.map Program.mk = _
  rw [chain]
  simp only [start, BlockGraph.action?, next]
  rw [chain]
  simp only [brush, BlockGraph.action?, width, last]
  rw [chain]
  rfl

theorem take_faint : (unfolding faint painting "start").take 5 = [⟨"start", 0⟩, ⟨"brush", 0⟩] := by
  have start : below faint painting ⟨"start", 0⟩ = [⟨"brush", 0⟩] := rfl
  have brush : below faint painting ⟨"brush", 0⟩ = [] := rfl
  simp only [unfolding, take_visits, start, brush, List.append_nil, visits_nil, Seq.take_nil]

theorem validate_compiled_faint :
    let p : Program := ⟨[.leaf ⟨"start"⟩ .start, .leaf ⟨"brush"⟩ (.width 0)]⟩
    ((⟨painting, 7, true⟩ : Compiler).compile faint).1 = .ok p ∧ painting.maxDepth ≤ 32 ∧
      ¬ p.ops.all Op.isStart ∧ p.depth ≤ 33 ∧
      validate p = .error (.invalidNumber ⟨"brush"⟩ .width 0) := by
  intro p
  have mixed : ¬ p.ops.all Op.isStart := Bool.false_ne_true
  obtain ⟨depth, -, judged⟩ := validate_compiled compile_faint
  obtain ⟨-, -, -, start, found, objects⟩ := judged (Nat.le_refl 32)
  obtain rfl : "start" = start := Option.some.inj (start?_faint.symm.trans found)
  refine ⟨compile_faint, Nat.le_refl 32, mixed, depth, ?_⟩
  rw [objects mixed]
  change ((unfolding faint painting "start").take 5).tail.findSome? _ = _
  rw [take_faint]
  rfl

end Compile

end BlockPlay

import BlockPlay.Compile.Basic
import BlockPlay.Proofs.Program.Outline
import Mathlib.Data.ENat.Lattice
import Mathlib.Data.Seq.Basic

/-!
Graphs unfolded. From a block on, the blocks are listed in pre-order: a block, then the chain in its body
if it is a loop, then the block below it. The list need not end. A compilation takes as many blocks of it
as its budget allows, and nests one op for each of them as the blocks are nested.
-/
namespace BlockPlay.Compile

open Stream' (Seq)

/-- A block on the way through a graph, and the number of loops around it. -/
structure Visit (Node : Type) where
  node : Node
  level : Nat

variable {Node : Type} (g : BlockGraph Node) (config : Config)

def chainAt (first : Option Node) (level : Nat) : List (Visit Node) := first.toList.map (⟨·, level⟩)

def body (v : Visit Node) : List (Visit Node) :=
  if config.classify (g.kind v.node) = some .loop then chainAt (g.body? v.node) (v.level + 1) else []

def below (v : Visit Node) : List (Visit Node) :=
  body g config v ++ chainAt (g.next? v.node) v.level

/-- The blocks of chains, one chain after the other. -/
def visits (chains : List (Visit Node)) : Seq (Visit Node) :=
  Seq.corec (fun | [] => none | v :: rest => some (v, below g config v ++ rest)) chains

def unfolding (start : Node) : Seq (Visit Node) := visits g config [⟨start, 0⟩]

/-- What is wrong with a block at its place. -/
def fault? (v : Visit Node) : Option CompileError :=
  match config.classify (g.kind v.node) with
  | none => some (.unknownBlock (g.id v.node) (g.kind v.node))
  | some .loop =>
    if config.maxDepth ≤ v.level then some (.nestingTooDeep (g.id v.node) config.maxDepth) else none
  | some _ => none

def op? (node : Node) : Option Op :=
  (config.classify (g.kind node)).map fun c =>
    match g.action? node c with
    | some action => .leaf (g.id node) action
    | none => .loop (g.id node) (g.count node) []

def line? (v : Visit Node) : Option (Nat × Op) := (op? g config v.node).map fun op => (v.level, op)

/-- The blocks visited on the way from some chains to others. -/
inductive Trail : List (Visit Node) → List (Visit Node) → List (Visit Node) → Prop where
  | stay (chains : List (Visit Node)) : Trail [] chains chains
  | visit {v : Visit Node} {visited rest last : List (Visit Node)}
      (later : Trail visited (below g config v ++ rest) last) : Trail (v :: visited) (v :: rest) last

/-- The way through chains, to those after them or to the end of a budget, with the outline of the ops
for the blocks visited. Only a way that is cut off ends before the budget lets it, at a block. -/
def Covers (budget left : Nat) (truncated : Bool) (chains after : List (Visit Node))
    (lines : List (Nat × Op)) : Prop :=
  ∃ visited last, Trail g config visited chains last ∧ visited.length + left = budget ∧
    visited.mapM (line? g config) = some lines ∧ (∀ v ∈ visited, fault? g config v = none) ∧
    if truncated then left = 0 ∧ last ≠ [] else last = after

/-- The way through chains to the first block with something wrong. -/
def Stops (budget left : Nat) (chains : List (Visit Node)) (e : CompileError) : Prop :=
  ∃ visited bad last, Trail g config visited chains (bad :: last) ∧ visited.length + 1 + left = budget ∧
    (∀ v ∈ visited, fault? g config v = none) ∧ fault? g config bad = some e

variable {g config}

theorem Trail.trans {before after first middle last : List (Visit Node)}
    (start : Trail g config before first middle) (later : Trail g config after middle last) :
    Trail g config (before ++ after) first last := by
  induction start with
  | stay => exact later
  | visit _ ih => exact .visit (ih later)

theorem Covers.visit {left remaining : Nat} {truncated : Bool} {v : Visit Node} {line : Nat × Op}
    {rest after : List (Visit Node)} {lines : List (Nat × Op)} (fine : fault? g config v = none)
    (stands : line? g config v = some line)
    (later : Covers g config left remaining truncated (below g config v ++ rest) after lines) :
    Covers g config (left + 1) remaining truncated (v :: rest) after (line :: lines) := by
  obtain ⟨visited, last, trail, spent, made, sound, stop⟩ := later
  refine ⟨v :: visited, last, .visit trail, ?_, ?_, ?_, stop⟩
  · rw [List.length_cons, Nat.add_right_comm, spent]
  · simp [List.mapM_cons, stands, made]
  · rintro u (_ | ⟨_, inside⟩)
    · exact fine
    · exact sound u inside

theorem Covers.append {budget middle left : Nat} {cut further : Bool}
    {chains between after : List (Visit Node)} {lines more : List (Nat × Op)}
    (first : Covers g config budget middle cut chains between lines)
    (second : Covers g config middle left further between after more) :
    Covers g config budget left (cut || further) chains after (lines ++ more) := by
  obtain ⟨visited, last, trail, spent, made, sound, stop⟩ := first
  obtain ⟨others, final, path, rest, drawn, clean, finish⟩ := second
  cases cut with
  | false =>
    have joined : last = between := by simpa using stop
    subst joined
    refine ⟨visited ++ others, final, trail.trans path, ?_, ?_, ?_, by simpa using finish⟩
    · rw [List.length_append, Nat.add_assoc, rest, spent]
    · simp [List.mapM_append, made, drawn]
    · intro v inside
      rcases List.mem_append.mp inside with early | late
      · exact sound v early
      · exact clean v late
  | true =>
    -- Without a budget the second way stays where the first one was cut off.
    obtain ⟨out, unfinished⟩ : middle = 0 ∧ last ≠ [] := by simpa using stop
    obtain ⟨none, zero⟩ : others.length = 0 ∧ left = 0 := by omega
    obtain rfl := List.eq_nil_of_length_eq_zero none
    obtain rfl : more = [] := by simpa using drawn.symm
    refine ⟨visited, last, trail, by omega, by simpa using made, sound, ?_⟩
    simpa using ⟨zero, unfinished⟩

theorem Stops.visit {left remaining : Nat} {v : Visit Node} {rest : List (Visit Node)}
    {e : CompileError} (fine : fault? g config v = none)
    (later : Stops g config left remaining (below g config v ++ rest) e) :
    Stops g config (left + 1) remaining (v :: rest) e := by
  obtain ⟨visited, bad, last, trail, spent, sound, wrong⟩ := later
  refine ⟨v :: visited, bad, last, .visit trail, ?_, ?_, wrong⟩
  · rw [List.length_cons]
    omega
  · rintro u (_ | ⟨_, inside⟩)
    · exact fine
    · exact sound u inside

theorem Covers.stops {budget middle left : Nat} {cut : Bool} {chains between : List (Visit Node)}
    {lines : List (Nat × Op)} {e : CompileError}
    (first : Covers g config budget middle cut chains between lines)
    (second : Stops g config middle left between e) :
    Stops g config budget left chains e ∧ cut = false := by
  obtain ⟨visited, last, trail, spent, made, sound, stop⟩ := first
  obtain ⟨others, bad, final, path, rest, clean, wrong⟩ := second
  cases cut with
  | false =>
    have joined : last = between := by simpa using stop
    subst joined
    refine ⟨⟨visited ++ others, bad, final, trail.trans path, ?_, ?_, wrong⟩, rfl⟩
    · rw [List.length_append]
      omega
    · intro v inside
      rcases List.mem_append.mp inside with early | late
      · exact sound v early
      · exact clean v late
  | true =>
    -- What has been cut off has no budget left to come upon a fault.
    obtain ⟨out, _⟩ : middle = 0 ∧ last ≠ [] := by simpa using stop
    omega

theorem action?_eq_none_iff {node : Node} {c : BlockClass} : g.action? node c = none ↔ c = .loop := by
  cases c <;> simp [BlockGraph.action?]

theorem visit_leaf {node : Node} {c : BlockClass} {action : Action} (level : Nat)
    (known : config.classify (g.kind node) = some c) (does : g.action? node c = some action) :
    below g config ⟨node, level⟩ = chainAt (g.next? node) level ∧
    line? g config ⟨node, level⟩ = some (level, .leaf (g.id node) action) ∧
    fault? g config ⟨node, level⟩ = none := by
  have plain : c ≠ .loop := by
    intro loop
    rw [action?_eq_none_iff.mpr loop] at does
    contradiction
  refine ⟨by simp [below, body, known, plain], by simp [line?, op?, known, does], ?_⟩
  cases c <;> simp_all [fault?]

theorem visit_loop {node : Node} {c : BlockClass} (level : Nat)
    (known : config.classify (g.kind node) = some c) (repeats : g.action? node c = none) :
    below g config ⟨node, level⟩ =
      chainAt (g.body? node) (level + 1) ++ chainAt (g.next? node) level ∧
    line? g config ⟨node, level⟩ = some (level, .loop (g.id node) (g.count node) []) ∧
    fault? g config ⟨node, level⟩ =
      if config.maxDepth ≤ level then some (.nestingTooDeep (g.id node) config.maxDepth) else none := by
  obtain rfl := action?_eq_none_iff.mp repeats
  exact ⟨by simp [below, body, known], by simp [line?, op?, known, repeats], by simp [fault?, known]⟩

theorem map_explains {result : Except CompileError (List Op)} {op : Op} {made : List Op → Prop}
    {failed : CompileError → Prop} (fine : ∀ ops, result = .ok ops → made (op :: ops))
    (wrong : ∀ e, result = .error e → failed e) :
    (∀ ops, result.map (op :: ·) = .ok ops → made ops) ∧
      ∀ e, result.map (op :: ·) = .error e → failed e := by
  cases result with
  | ok ops =>
    refine ⟨?_, fun e failed => nomatch failed⟩
    rintro _ ⟨⟩
    exact fine ops rfl
  | error e =>
    refine ⟨fun ops done => (nomatch done), ?_⟩
    rintro _ ⟨⟩
    exact wrong e rfl

/-- What a walk along a chain has done when it ends, whatever chains come after it. -/
theorem chain_explains (g : BlockGraph Node) (config : Config) (budget level : Nat)
    (first : Option Node) (rest : List (Visit Node)) :
    (∀ ops, (chain g config budget level first).ops = .ok ops →
      Covers g config budget (chain g config budget level first).left
        (chain g config budget level first).truncated (chainAt first level ++ rest) rest
        (Op.outlines level ops)) ∧
    ∀ e, (chain g config budget level first).ops = .error e →
      Stops g config budget (chain g config budget level first).left (chainAt first level ++ rest) e ∧
        (chain g config budget level first).truncated = false := by
  -- A body is followed by the chain below its loop, so the chains that come after have to vary.
  fun_induction chain g config budget level first generalizing rest with
  | case1 budget level =>
    refine ⟨?_, fun e failed => nomatch failed⟩
    rintro _ ⟨⟩
    exact ⟨[], rest, .stay _, Nat.zero_add _, rfl, by simp, rfl⟩
  | case2 level node =>
    refine ⟨?_, fun e failed => nomatch failed⟩
    rintro _ ⟨⟩
    exact ⟨[], _, .stay _, rfl, rfl, by simp, rfl, List.cons_ne_nil _ _⟩
  | case3 level node left unknown =>
    refine ⟨fun ops done => (nomatch done), ?_⟩
    rintro _ ⟨⟩
    refine ⟨⟨[], ⟨node, level⟩, rest, .stay _, Nat.add_comm _ _, by simp, ?_⟩, rfl⟩
    simp only [fault?, unknown]
  | case4 level node left c known action does later ih =>
    obtain ⟨next, line, fine⟩ := visit_leaf level known does
    obtain ⟨covers, stops⟩ := ih rest
    rw [← next] at covers stops
    refine map_explains (fun ops ended => .visit fine line (covers ops ended)) fun e ended => ?_
    obtain ⟨stop, untouched⟩ := stops e ended
    exact ⟨.visit fine stop, untouched⟩
  | case5 level node left c known repeats deep =>
    obtain ⟨_, _, fault⟩ := visit_loop level known repeats
    refine ⟨fun ops done => (nomatch done), ?_⟩
    rintro _ ⟨⟩
    refine ⟨⟨[], ⟨node, level⟩, rest, .stay _, Nat.add_comm _ _, by simp, ?_⟩, rfl⟩
    rw [fault, if_pos (Nat.le_of_lt_succ deep)]
  | case6 level node left c known repeats shallow inner e failed ih =>
    obtain ⟨next, _, fault⟩ := visit_loop level known repeats
    rw [if_neg (by omega)] at fault
    obtain ⟨stop, untouched⟩ := (ih (chainAt (g.next? node) level ++ rest)).2 e failed
    rw [← List.append_assoc, ← next] at stop
    refine ⟨fun ops done => (nomatch done), ?_⟩
    rintro _ ⟨⟩
    exact ⟨.visit fault stop, untouched⟩
  | case7 level node left c known repeats shallow inner body made later inside ih =>
    obtain ⟨next, line, fault⟩ := visit_loop level known repeats
    rw [if_neg (by omega)] at fault
    have covered := (inside (chainAt (g.next? node) level ++ rest)).1 body made
    obtain ⟨covers, stops⟩ := ih rest
    rw [← List.append_assoc, ← next] at covered
    refine map_explains (fun ops ended => .visit fault line (covered.append (covers ops ended)))
      fun e ended => ?_
    obtain ⟨stop, untouched⟩ := stops e ended
    obtain ⟨onward, uncut⟩ := covered.stops stop
    exact ⟨.visit fault onward, by rw [uncut, untouched]; rfl⟩

theorem visits_nil : visits g config [] = Seq.nil := Seq.corec_nil _ _ rfl

theorem visits_cons (v : Visit Node) (rest : List (Visit Node)) :
    visits g config (v :: rest) = Seq.cons v (visits g config (below g config v ++ rest)) :=
  Seq.corec_cons rfl

theorem take_visits (n : Nat) (v : Visit Node) (rest : List (Visit Node)) :
    (visits g config (v :: rest)).take (n + 1) = v :: (visits g config (below g config v ++ rest)).take n := by
  rw [visits_cons, Seq.take_succ_cons]

theorem Trail.take {visited chains last : List (Visit Node)} (trail : Trail g config visited chains last)
    (k : Nat) : (visits g config chains).take (visited.length + k) =
      visited ++ (visits g config last).take k := by
  induction trail with
  | stay => simp
  | visit _ ih =>
    rw [List.length_cons, Nat.add_right_comm, take_visits, ih, List.cons_append]

theorem Trail.length {visited chains last : List (Visit Node)} (trail : Trail g config visited chains last) :
    (visits g config chains).length' = visited.length + (visits g config last).length' := by
  induction trail with
  | stay => simp
  | visit _ ih =>
    rw [visits_cons, Seq.length'_cons, ih, List.length_cons, Nat.cast_add, Nat.cast_one,
      add_right_comm]

theorem map_of_mapM {visited : List (Visit Node)} {lines : List (Nat × Op)}
    (made : visited.mapM (line? g config) = some lines) :
    visited.map (line? g config) = lines.map some := by
  induction visited generalizing lines with
  | nil =>
    obtain rfl : lines = [] := by simpa using made.symm
    rfl
  | cons v rest ih =>
    simp only [List.mapM_cons, Option.bind_eq_bind, Option.bind_eq_some_iff] at made
    obtain ⟨line, stands, others, more, same⟩ := made
    obtain rfl : line :: others = lines := by simpa using same
    rw [List.map_cons, List.map_cons, stands, ih more]

theorem length_of_mapM {visited : List (Visit Node)} {lines : List (Nat × Op)}
    (made : visited.mapM (line? g config) = some lines) : lines.length = visited.length := by
  simpa using congrArg List.length (map_of_mapM made).symm

theorem Covers.unfolded {budget left : Nat} {truncated : Bool} {chains : List (Visit Node)}
    {lines : List (Nat × Op)} (covers : Covers g config budget left truncated chains [] lines) :
    ((visits g config chains).take budget).mapM (line? g config) = some lines ∧
    (lines.length : ℕ∞) = min (budget : ℕ∞) (visits g config chains).length' ∧
    (truncated = true ↔ (budget : ℕ∞) < (visits g config chains).length') := by
  obtain ⟨visited, last, trail, spent, made, _, stop⟩ := covers
  rw [length_of_mapM made, trail.length, ← spent, trail.take]
  cases truncated with
  | false =>
    obtain rfl : last = [] := by simpa using stop
    rw [visits_nil, Seq.take_nil, List.append_nil, Seq.length'_nil, add_zero]
    refine ⟨made, ?_, ?_⟩
    · exact (min_eq_right (Nat.cast_le.mpr (Nat.le_add_right _ left))).symm
    · simp
  | true =>
    obtain ⟨rfl, more⟩ : left = 0 ∧ last ≠ [] := by simpa using stop
    obtain ⟨v, rest, rfl⟩ := List.exists_cons_of_ne_nil more
    have longer : (visited.length : ℕ∞) < visited.length + (visits g config (v :: rest)).length' := by
      rw [visits_cons, Seq.length'_cons, ← add_assoc]
      exact ENat.natCast_lt_add_one_iff.mpr le_self_add
    refine ⟨by simpa using made, ?_, ?_⟩
    · exact (min_eq_left longer.le).symm
    · simpa using longer

theorem Stops.fault {budget left : Nat} {chains : List (Visit Node)} {e : CompileError}
    (stops : Stops g config budget left chains e) :
    ∃ v ∈ (visits g config chains).take budget, fault? g config v = some e := by
  obtain ⟨visited, bad, last, trail, spent, _, wrong⟩ := stops
  refine ⟨bad, ?_, wrong⟩
  rw [← spent, Nat.add_assoc, trail.take, Nat.add_comm 1, take_visits]
  simp

/-- A graph in whose unfolding nothing is wrong up to the budget compiles to that part of the unfolding,
one op for each block, nested as the blocks are. The program is cut off exactly when the unfolding has
more blocks. -/
theorem compile_nests_unfolding (g : BlockGraph Node) (compiler : Compiler) (start : Node)
    (found : Compiler.start? compiler.config g = some start)
    (clean : ∀ v ∈ (unfolding g compiler.config start).take compiler.config.maxBlocks,
      fault? g compiler.config v = none) :
    ∃ lines, ((unfolding g compiler.config start).take compiler.config.maxBlocks).mapM
        (line? g compiler.config) = some lines ∧
      Op.outlines 0 (Op.nest lines) = lines ∧
      (compiler.compile g).1 = .ok ⟨Op.nest lines⟩ ∧
      (Op.sizes (Op.nest lines) : ℕ∞) =
        min (compiler.config.maxBlocks : ℕ∞) (unfolding g compiler.config start).length' ∧
      ((compiler.compile g).2.truncated = true ↔
        (compiler.config.maxBlocks : ℕ∞) < (unfolding g compiler.config start).length') := by
  obtain ⟨covers, stops⟩ := chain_explains g compiler.config compiler.config.maxBlocks 0
    (some start) []
  simp only [Compiler.compile, found]
  cases ended : (chain g compiler.config compiler.config.maxBlocks 0 (some start)).ops with
  | ok ops =>
    obtain ⟨made, size, cut⟩ := (covers ops ended).unfolded
    refine ⟨Op.outlines 0 ops, made, ?_, ?_, ?_, cut⟩
    · rw [Op.nest_outlines]
    · rw [Op.nest_outlines]
      rfl
    · rw [Op.nest_outlines, ← Op.length_outlines 0]
      exact size
  | error e =>
    obtain ⟨stop, _⟩ := stops e ended
    obtain ⟨v, early, wrong⟩ := stop.fault
    rw [clean v early] at wrong
    contradiction

/-- A start block above a loop above a move. The move follows itself, and is the body of the loop too. -/
def endless : BlockGraph String where
  top := ["start"]
  id kind := ⟨kind⟩
  kind kind := kind
  next? kind := if kind = "start" then some "repeat" else some "move"
  input? kind name := if kind = "repeat" ∧ name = "DO" then some "move" else none
  field? _ _ := none

def narrow : Config := ⟨[(.start, ["start"]), (.move, ["move"]), (.loop, ["repeat"])], 5, 1⟩

theorem start?_endless : Compiler.start? narrow endless = some "start" := by
  decide

theorem below_endless (level : Nat) : below endless narrow ⟨"start", level⟩ = [⟨"repeat", level⟩] ∧
    below endless narrow ⟨"repeat", level⟩ = [⟨"move", level + 1⟩, ⟨"move", level⟩] ∧
    below endless narrow ⟨"move", level⟩ = [⟨"move", level⟩] :=
  ⟨rfl, rfl, rfl⟩

theorem take_endless : (unfolding endless narrow "start").take 5 =
    [⟨"start", 0⟩, ⟨"repeat", 0⟩, ⟨"move", 1⟩, ⟨"move", 1⟩, ⟨"move", 1⟩] := by
  simp only [unfolding, take_visits, below_endless, List.cons_append, List.nil_append, Seq.take_zero,
    Nat.zero_add]

theorem fault?_endless :
    ∀ v ∈ (unfolding endless narrow "start").take 5, fault? endless narrow v = none := by
  rw [take_endless]
  simp only [List.forall_mem_cons]
  exact ⟨rfl, rfl, rfl, rfl, rfl, by simp⟩

theorem compile_nests_unfolding_endless :
    Compiler.start? narrow endless = some "start" ∧
    (∀ v ∈ (unfolding endless narrow "start").take 5, fault? endless narrow v = none) ∧
    ∃ lines, ((unfolding endless narrow "start").take 5).mapM (line? endless narrow) = some lines ∧
      Op.outlines 0 (Op.nest lines) = lines ∧
      ((⟨narrow, 7, true⟩ : Compiler).compile endless).1 = .ok ⟨Op.nest lines⟩ ∧
      (Op.sizes (Op.nest lines) : ℕ∞) =
        min ((5 : Nat) : ℕ∞) (unfolding endless narrow "start").length' ∧
      (((⟨narrow, 7, true⟩ : Compiler).compile endless).2.truncated = true ↔
        ((5 : Nat) : ℕ∞) < (unfolding endless narrow "start").length') :=
  ⟨start?_endless, fault?_endless,
    compile_nests_unfolding endless ⟨narrow, 7, true⟩ "start" start?_endless fault?_endless⟩

end BlockPlay.Compile

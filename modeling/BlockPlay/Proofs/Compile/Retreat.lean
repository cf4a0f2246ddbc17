import BlockPlay.Proofs.Compile.Shapes
import BlockPlay.Proofs.Compile.Validity

/-!
Moves turned back. Where a configuration has a block go ahead and another one has it go back, the two compile to the
same program, but for the steps of such blocks: those back are as many as those ahead, whichever sign these have. Only
the least number of steps, which has no opposite, falls short by one.
-/
namespace BlockPlay

/-- Of the tags that go ahead in one configuration, some go back in the other; nothing else that a compilation asks
is different. -/
structure Config.Reverses (ahead back : Config) : Prop where
  tags : ∀ tag, back.classify tag = ahead.classify tag ∨
    ahead.classify tag = some .move ∧ back.classify tag = some .back
  maxBlocks : back.maxBlocks = ahead.maxBlocks
  maxDepth : back.maxDepth = ahead.maxDepth

/-- As many steps back as there are steps in either direction, held at the greatest number. -/
structure Retreats (steps back : Int32) : Prop where
  opposite : steps ≠ Int32.minValue → back.toInt = -|steps.toInt|
  held : steps = Int32.minValue → back.toInt = -Int32.maxValue.toInt
  behind : back.toInt ≤ 0

section Steps

/-- An absolute value is held at the greatest number and does not wrap around. -/
theorem toInt_saturatingAbs (n : Int32) : (saturatingAbs n).toInt = min |n.toInt| Int32.maxValue.toInt := by
  have low := n.le_toInt
  have high := n.toInt_lt
  by_cases least : n = Int32.minValue
  · subst least
    decide
  · have different : n.toInt ≠ Int32.minValue.toInt := fun same => least (Int32.toInt_inj.mp same)
    rw [Int32.toInt_minValue] at different
    have regular : Int32.minValue < n := by
      rw [Int32.lt_iff_toInt_lt, Int32.toInt_minValue]
      omega
    have bound : |n.toInt| ≤ Int32.maxValue.toInt := by
      rw [Int32.toInt_maxValue, abs_le]
      omega
    have positive : saturatingAbs n = Int32.ofInt |n.toInt| := by
      rw [← neg_neg |n.toInt|, Int32.ofInt_neg, ← neg_saturatingAbs regular, Int32.neg_neg]
    rw [Int32.toInt_maxValue] at bound
    rw [positive, Int32.toInt_maxValue, min_eq_left bound]
    have sign := abs_nonneg n.toInt
    exact Int32.toInt_ofInt_of_le (by omega) (by omega)

/-- Nor does its opposite. -/
theorem toInt_neg_saturatingAbs (n : Int32) : (-saturatingAbs n).toInt = -(saturatingAbs n).toInt := by
  have bound : (saturatingAbs n).toInt ≤ Int32.maxValue.toInt := toInt_saturatingAbs n ▸ min_le_right _ _
  have sign : 0 ≤ (saturatingAbs n).toInt := by
    rw [toInt_saturatingAbs]
    exact le_min (abs_nonneg _) (by decide)
  rw [Int32.toInt_maxValue] at bound
  rw [Int32.toInt_neg]
  exact Int.bmod_eq_of_le_mul_two (by omega) (by omega)

theorem retreats_neg_saturatingAbs (n : Int32) : Retreats n (-saturatingAbs n) := by
  have back : (-saturatingAbs n).toInt = -min |n.toInt| Int32.maxValue.toInt := by
    rw [toInt_neg_saturatingAbs, toInt_saturatingAbs]
  refine ⟨fun regular => ?_, fun least => ?_, ?_⟩
  · have different : n.toInt ≠ Int32.minValue.toInt := fun same => regular (Int32.toInt_inj.mp same)
    have low := n.le_toInt
    have high := n.toInt_lt
    rw [Int32.toInt_minValue] at different
    rw [back, Int32.toInt_maxValue, min_eq_left]
    rw [abs_le]
    omega
  · rw [back, least]
    decide
  · rw [back]
    exact neg_nonpos.mpr (le_min (abs_nonneg _) (by decide))

/-- Steps are held within 32 bits before they are made a number of 32 bits. -/
theorem toInt_stepsOf (x : Float) : (stepsOf x).toInt =
    Decimal.clampWhole Int32.minValue.toInt Int32.maxValue.toInt Decimal.Binary.truncate x := by
  have within : Int32.minValue.toInt ≤
        Decimal.clampWhole Int32.minValue.toInt Int32.maxValue.toInt Decimal.Binary.truncate x ∧
      Decimal.clampWhole Int32.minValue.toInt Int32.maxValue.toInt Decimal.Binary.truncate x ≤
        Int32.maxValue.toInt := by
    have order : Int32.minValue.toInt ≤ 0 ∧ 0 ≤ Int32.maxValue.toInt := by decide
    rw [Decimal.clampWhole]
    split
    next => omega
    next =>
      split
      next => exact order
      next => split <;> omega
  have ends : Int32.minValue.toInt = -2 ^ 31 ∧ Int32.maxValue.toInt = 2 ^ 31 - 1 := by decide
  rw [stepsOf]
  exact Int32.toInt_ofInt_of_le (by omega) (by omega)

end Steps

namespace Compile

variable {Node : Type} {g : BlockGraph Node} {config : Config} {start : Node}

theorem compile_error_iff (found : Compiler.start? config g = some start) (e : CompileError) :
    compile config g = .error e ↔
      ((unfolding g config start).take config.maxBlocks).findSome? (fault? g config) = some e := by
  have started : Compiler.start? (Compiler.new config).config g = some start := found
  exact (error_iff_findSome? started e).1

theorem compile_lines (found : Compiler.start? config g = some start) {p : Program}
    (compiled : compile config g = .ok p) :
    ((unfolding g config start).take config.maxBlocks).map (line? g config) = (Op.outlines 0 p.ops).map some := by
  have made : ((Compiler.new config).compile g).1 = .ok p := compiled
  obtain ⟨_, known, lines, -⟩ := compiled_lines made
  obtain rfl := Option.some.inj (found.symm.trans known)
  exact lines

end Compile

namespace Config.Reverses

open Stream' (Seq)
open Compile

variable {Node : Type} {g : BlockGraph Node} {ahead back : Config}

theorem classify_iff (reverses : ahead.Reverses back) {c : BlockClass} (noMove : c ≠ .move) (noBack : c ≠ .back)
    (tag : String) : back.classify tag = some c ↔ ahead.classify tag = some c := by
  rcases reverses.tags tag with same | ⟨forwards, backwards⟩
  · rw [same]
  · rw [forwards, backwards]
    exact iff_of_false (fun same => noBack (Option.some.inj same).symm) fun same => noMove (Option.some.inj same).symm

theorem start? (reverses : ahead.Reverses back) (g : BlockGraph Node) :
    Compiler.start? back g = Compiler.start? ahead g := by
  have same := reverses.classify_iff (c := .start) (by decide) (by decide)
  simp only [Compiler.start?, same]

theorem below (reverses : ahead.Reverses back) (v : Visit Node) : below g back v = below g ahead v := by
  have same := reverses.classify_iff (c := .loop) (by decide) (by decide)
  simp only [Compile.below, body, same]

theorem take_visits (reverses : ahead.Reverses back) (n : Nat) (chains : List (Visit Node)) :
    (visits g back chains).take n = (visits g ahead chains).take n := by
  induction n generalizing chains with
  | zero => rfl
  | succ n ih =>
    cases chains with
    | nil => rw [visits_nil, visits_nil]
    | cons v rest => rw [Compile.take_visits, Compile.take_visits, reverses.below, ih]

theorem take_unfolding (reverses : ahead.Reverses back) (start : Node) :
    (unfolding g back start).take back.maxBlocks = (unfolding g ahead start).take ahead.maxBlocks := by
  rw [reverses.maxBlocks]
  exact reverses.take_visits _ _

theorem fault? (reverses : ahead.Reverses back) : fault? g back = fault? g ahead := by
  funext v
  rw [Compile.fault?, Compile.fault?, reverses.maxDepth]
  rcases reverses.tags (g.kind v.node) with same | ⟨forwards, backwards⟩
  · rw [same]
  · rw [forwards, backwards]

theorem error_iff (reverses : ahead.Reverses back) {start : Node} (found : Compiler.start? ahead g = some start)
    (e : CompileError) : compile back g = .error e ↔ compile ahead g = .error e := by
  have found' : Compiler.start? back g = some start := (reverses.start? g).trans found
  rw [compile_error_iff found, compile_error_iff found', reverses.take_unfolding, reverses.fault?]

end Config.Reverses

namespace Compile

open Stream' (Seq)

variable {Node : Type} {g : BlockGraph Node} {ahead back : Config}

/-- What becomes of the op of a block when its configuration is exchanged for one that reverses it: nothing, or it
goes back. -/
def Turned (g : BlockGraph Node) (ahead back : Config) (v : Visit Node) (op op' : Op) : Prop :=
  if ahead.classify (g.kind v.node) = some .move ∧ back.classify (g.kind v.node) = some .back then
    ∃ steps steps', op = .leaf (g.id v.node) (.move steps) ∧ op' = .leaf (g.id v.node) (.move steps') ∧
      Retreats steps steps'
  else op' = op

theorem turned_lines (reverses : ahead.Reverses back) {v : Visit Node} {op op' : Op}
    (stands : line? g ahead v = some (v.level, op)) (stands' : line? g back v = some (v.level, op')) :
    Turned g ahead back v op op' := by
  rw [Turned]
  split
  next reversed =>
    have forwards := (visit_leaf v.level reversed.1 rfl).2.1.symm.trans stands
    have backwards := (visit_leaf v.level reversed.2 rfl).2.1.symm.trans stands'
    cases forwards
    cases backwards
    exact ⟨_, _, rfl, rfl, retreats_neg_saturatingAbs _⟩
  next unchanged =>
    have same := (reverses.tags (g.kind v.node)).resolve_right unchanged
    have line : line? g back v = line? g ahead v := by
      rw [line?, line?, op?, op?, same]
    rw [line, stands] at stands'
    cases stands'
    rfl

/-- The op of the block with a number in a program. -/
theorem exists_line {config : Config} {start : Node} {p : Program} {n i : Nat} {v : Visit Node}
    (made : ((unfolding g config start).take n).map (line? g config) = (Op.outlines 0 p.ops).map some)
    (visited : ((unfolding g config start).take n)[i]? = some v) :
    ∃ op, (Op.outlines 0 p.ops)[i]? = some (v.level, op) ∧ line? g config v = some (v.level, op) := by
  have place := congrArg (·[i]?) made
  simp only [List.getElem?_map, visited, Option.map_some] at place
  obtain ⟨⟨level, op⟩, present, stands⟩ := Option.map_eq_some_iff.mp place.symm
  have same : level = v.level := by
    obtain ⟨_, -, line⟩ := Option.map_eq_some_iff.mp stands.symm
    exact (congrArg Prod.fst line).symm
  subst same
  exact ⟨op, present, stands.symm⟩

/-- A configuration that has some blocks go back instead of ahead finds the same start, comes to the same blocks and
fails for the same reason. Where it does not fail, the ops of these blocks retreat by as many steps as they would
advance, and all others are the same. None of the numbers on the way wraps around. -/
theorem compile_turned_back (reverses : ahead.Reverses back) (g : BlockGraph Node) :
    Compiler.start? back g = Compiler.start? ahead g ∧
    (∀ start, Compiler.start? ahead g = some start →
      (∀ e, compile back g = .error e ↔ compile ahead g = .error e) ∧
      ∀ p, compile ahead g = .ok p → ∃ p', compile back g = .ok p' ∧
        (Op.outlines 0 p'.ops).length = (Op.outlines 0 p.ops).length ∧
        ∀ (i : Nat) v, ((unfolding g ahead start).take ahead.maxBlocks)[i]? = some v →
          ∃ op op', (Op.outlines 0 p.ops)[i]? = some (v.level, op) ∧
            (Op.outlines 0 p'.ops)[i]? = some (v.level, op') ∧ Turned g ahead back v op op') ∧
    (∀ x, (stepsOf x).toInt =
      Decimal.clampWhole Int32.minValue.toInt Int32.maxValue.toInt Decimal.Binary.truncate x) ∧
    ∀ n, (saturatingAbs n).toInt = min |n.toInt| Int32.maxValue.toInt ∧
      (-saturatingAbs n).toInt = -(saturatingAbs n).toInt := by
  refine ⟨reverses.start? g, fun start found => ⟨reverses.error_iff found, fun p compiled => ?_⟩, toInt_stepsOf,
    fun n => ⟨toInt_saturatingAbs n, toInt_neg_saturatingAbs n⟩⟩
  have made := compile_lines found compiled
  cases compiled' : compile back g with
  | error e => cases ((reverses.error_iff found e).mp compiled').symm.trans compiled
  | ok p' =>
    have made' := compile_lines ((reverses.start? g).trans found) compiled'
    have unfolded := reverses.take_unfolding (g := g) start
    refine ⟨p', rfl, ?_, fun i v visited => ?_⟩
    · have longer := congrArg List.length made
      have longer' := congrArg List.length made'
      rw [unfolded] at longer'
      simp only [List.length_map] at longer longer'
      exact longer'.symm.trans longer
    · obtain ⟨op, present, stands⟩ := exists_line made visited
      obtain ⟨op', present', stands'⟩ := exists_line made' (unfolded ▸ visited)
      exact ⟨op, op', present, present', turned_lines reverses stands stands'⟩

/-- A start block above one block with a number of steps. -/
def stride (x : Float) : BlockGraph String where
  top := ["start"]
  id kind := ⟨kind⟩
  kind kind := kind
  next? kind := if kind = "start" then some "step" else none
  input? _ _ := none
  field? kind name := if kind = "step" ∧ name = "STEPS" then some (.number x) else none

/-- The steps are of this class. -/
def pacing (c : BlockClass) : Config := ⟨[(.start, ["start"]), (c, ["step"])], 5, 32⟩

theorem pacing_reverses : (pacing .move).Reverses (pacing .back) := by
  refine ⟨fun tag => ?_, rfl, rfl⟩
  by_cases step : tag = "step"
  · subst step
    exact .inr ⟨by decide, by decide⟩
  · exact .inl (by simp [pacing, Config.classify, List.find?_cons, step])

theorem compile_stride {x : Float} {c : BlockClass} {action : Action}
    (known : (pacing c).classify "step" = some c) (does : (stride x).action? "step" c = some action) :
    compile (pacing c) (stride x) = .ok ⟨[.leaf ⟨"start"⟩ .start, .leaf ⟨"step"⟩ action]⟩ := by
  have start : (pacing c).classify "start" = some .start := by simp [pacing, Config.classify]
  have found : Compiler.start? (pacing c) (stride x) = some "start" :=
    List.find?_cons_of_pos (decide_eq_true start)
  have ended : chain (stride x) (pacing c) 3 0 none = ⟨.ok [], 3, false, Nat.le_refl 3⟩ := by rw [chain]
  have step := chain_leaf known does ended
  have begins : (stride x).action? "start" .start = some .start := rfl
  have whole := chain_leaf start begins step
  simp only [compile, Compiler.compile, Compiler.new, found]
  change (chain (stride x) (pacing c) 5 0 (some "start")).ops.map Program.mk = _
  rw [whole]
  rfl

theorem action?_stride {x : Float} (finite : x.isFinite) :
    (stride x).action? "step" .move = some (.move (stepsOf x)) ∧
      (stride x).action? "step" .back = some (.move (-saturatingAbs (stepsOf x))) := by
  have read : Argument.steps.read (stride x) "step" = x := Argument.steps.read_of_field rfl rfl finite
  rw [BlockGraph.action?, BlockGraph.action?, read]
  exact ⟨rfl, rfl⟩

theorem visited_stride (x : Float) :
    (unfolding (stride x) (pacing .move) "start").take 5 = [⟨"start", 0⟩, ⟨"step", 0⟩] := by
  have start : below (stride x) (pacing .move) ⟨"start", 0⟩ = [⟨"step", 0⟩] := rfl
  have step : below (stride x) (pacing .move) ⟨"step", 0⟩ = [] := rfl
  simp only [unfolding, take_visits, start, step, List.append_nil, visits_nil, Seq.take_nil]

theorem compile_turned_back_pacing :
    let seven := stride (Float.ofInt (-7))
    (pacing .move).Reverses (pacing .back) ∧
      compile (pacing .move) seven = .ok ⟨[.leaf ⟨"start"⟩ .start, .leaf ⟨"step"⟩ (.move (-7))]⟩ ∧
      ∃ p' steps', compile (pacing .back) seven = .ok p' ∧ (Op.outlines 0 p'.ops).length = 2 ∧
        (Op.outlines 0 p'.ops)[1]? = some (0, .leaf ⟨"step"⟩ (.move steps')) ∧ Retreats (-7) steps' := by
  intro seven
  have finite : (Float.ofInt (-7)).isFinite := Decimal.isFinite_of_value? (value?_int32 (-7))
  have whole : stepsOf (Float.ofInt (-7)) = -7 := stepsOf_ofInt (-7)
  have steps := (action?_stride finite).1
  rw [whole] at steps
  have compiled := compile_stride (by decide) steps
  have start : Compiler.start? (pacing .move) seven = some "start" := rfl
  have visited : ((unfolding seven (pacing .move) "start").take 5)[1]? = some ⟨"step", 0⟩ := by
    rw [visited_stride]
    rfl
  obtain ⟨-, turned, -⟩ := compile_turned_back pacing_reverses seven
  obtain ⟨p', compiled', same, ops⟩ := (turned "start" start).2 _ compiled
  obtain ⟨op, op', present, present', turns⟩ := ops 1 _ visited
  have reversed : (pacing .move).classify "step" = some .move ∧ (pacing .back).classify "step" = some .back :=
    ⟨by decide, by decide⟩
  obtain ⟨_, steps', rfl, rfl, retreats⟩ := (if_pos reversed).mp turns
  cases present
  exact ⟨pacing_reverses, compiled, p', steps', compiled', same, present', retreats⟩

/-- A number of steps below all that are held comes to the least one, and the steps back are one short of it. -/
theorem least_steps_fall_short :
    let far := stride (Float.ofInt (-3000000000))
    compile (pacing .move) far = .ok ⟨[.leaf ⟨"start"⟩ .start, .leaf ⟨"step"⟩ (.move Int32.minValue)]⟩ ∧
      compile (pacing .back) far = .ok ⟨[.leaf ⟨"start"⟩ .start, .leaf ⟨"step"⟩ (.move (-2147483647))]⟩ ∧
      (-2147483647 : Int32).toInt ≠ -|Int32.minValue.toInt| := by
  intro far
  have value : Decimal.value? (Float.ofInt (-3000000000)) = some (((-3000000000 : ℤ)) : ℚ) :=
    Decimal.value?_ofInt (by decide)
  have whole : stepsOf (Float.ofInt (-3000000000)) = Int32.minValue := by
    rw [stepsOf, Decimal.clampWhole_truncate value]
    decide
  obtain ⟨forwards, backwards⟩ := action?_stride (Decimal.isFinite_of_value? value)
  rw [whole] at forwards backwards
  exact ⟨compile_stride (by decide) forwards, compile_stride (by decide) backwards, by decide⟩

end Compile

end BlockPlay

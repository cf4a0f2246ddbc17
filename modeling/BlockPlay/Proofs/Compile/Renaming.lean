import BlockPlay.Compile.Basic
import BlockPlay.Compile.Validate
import BlockPlay.Proofs.Program.Renaming

/-!
Compilations and checks under other names for the blocks. Neither looks into a name: it only ends up in
the op or in the error that it stands in.
-/
namespace BlockPlay

def BlockGraph.rename {Node : Type} (f : BlockId → BlockId) (g : BlockGraph Node) : BlockGraph Node :=
  { g with id := fun node => f (g.id node) }

def CompileError.rename (f : BlockId → BlockId) : CompileError → CompileError
  | missingStart tags => missingStart tags
  | unknownBlock id kind => unknownBlock (f id) kind
  | nestingTooDeep id max => nestingTooDeep (f id) max

def ValidationError.rename (f : BlockId → BlockId) : ValidationError → ValidationError
  | empty => empty
  | misplacedStart block => misplacedStart (f block)
  | repeatTooLarge block count max => repeatTooLarge (f block) count max
  | tooDeep depth max => tooDeep depth max
  | invalidNumber block field value => invalidNumber (f block) field value

namespace BlockGraph

variable {Node : Type} (f : BlockId → BlockId) (g : BlockGraph Node) (node : Node)

theorem kind_rename : (g.rename f).kind node = g.kind node := rfl

theorem next?_rename : (g.rename f).next? node = g.next? node := rfl

theorem action?_rename (c : BlockClass) : (g.rename f).action? node c = g.action? node c := by
  cases c <;> rfl

end BlockGraph

namespace Compile

variable {Node : Type} (f : BlockId → BlockId)

/-- The ops or the error of a walk, with new names. -/
def renamed : Except CompileError (List Op) → Except CompileError (List Op)
  | .ok ops => .ok (Op.renameAll f ops)
  | .error e => .error (e.rename f)

@[simp] theorem renamed_ok (ops : List Op) : renamed f (.ok ops) = .ok (Op.renameAll f ops) := rfl

theorem renamed_map (op : Op) (ops : Except CompileError (List Op)) :
    renamed f (ops.map (op :: ·)) = (renamed f ops).map (op.rename f :: ·) := by
  cases ops <;> rfl

def Walk.rename {budget : Nat} (w : Walk budget) : Walk budget := { w with ops := renamed f w.ops }

theorem chain_rename (g : BlockGraph Node) (config : Config) (budget depth : Nat) (first : Option Node) :
    chain (g.rename f) config budget depth first = (chain g config budget depth first).rename f := by
  -- What is left of the budget after a body is known only when it has been walked.
  induction budget using Nat.strongRecOn generalizing depth first with
  | ind budget ih =>
    cases first with
    | none =>
      rw [chain, chain]
      rfl
    | some node =>
      cases budget with
      | zero =>
        rw [chain, chain]
        rfl
      | succ left =>
        have inner := ih left (Nat.lt_succ_self left)
        rw [chain, chain]
        simp only [BlockGraph.kind_rename, BlockGraph.action?_rename]
        cases config.classify (g.kind node) with
        | none => rfl
        | some c =>
          simp only
          cases g.action? node c with
          | some action =>
            simp only [BlockGraph.next?_rename, inner, Walk.rename, renamed_map]
            rfl
          | none =>
            simp only
            split
            next deep => rfl
            next shallow =>
              have body : chain (g.rename f) config left (depth + 1) ((g.rename f).body? node) =
                  (chain g config left (depth + 1) (g.body? node)).rename f := inner (depth + 1) _
              have ops := congrArg Walk.ops body
              have rest := congrArg Walk.left body
              have cut := congrArg Walk.truncated body
              simp only [Walk.rename] at ops rest cut
              rw [ops]
              cases (chain g config left (depth + 1) (g.body? node)).ops with
              | error e => simp only [renamed, Walk.rename, rest, cut]
              | ok body =>
                simp only [renamed_ok, Walk.rename, Walk.mk.injEq, cut, renamed_map]
                rw [ih _ (Nat.lt_succ_of_le (Walk.left_le _)), rest]
                exact ⟨rfl, rfl, rfl⟩

end Compile

/-- Blocks with other names compile to the same program with other names, or fail for the same reason. -/
theorem Compiler.compile_rename {Node : Type} (f : BlockId → BlockId) (compiler : Compiler)
    (g : BlockGraph Node) :
    compiler.compile (g.rename f) =
      (((compiler.compile g).1.map (Program.rename f)).mapError (CompileError.rename f),
        (compiler.compile g).2) := by
  have start : start? compiler.config (g.rename f) = start? compiler.config g := rfl
  simp only [compile, start]
  cases start? compiler.config g with
  | none => rfl
  | some node =>
    simp only [Compile.chain_rename, Compile.Walk.rename]
    cases (Compile.chain g compiler.config compiler.config.maxBlocks 0 (some node)).ops <;> rfl

namespace Limits

variable (f : BlockId → BlockId) (limits : Limits)

theorem checkLeaf_rename (block : BlockId) (action : Action) :
    checkLeaf (f block) action = (checkLeaf block action).mapError (ValidationError.rename f) := by
  cases action with
  | turn direction degrees =>
    simp only [checkLeaf]
    split <;> rfl
  | width width =>
    simp only [checkLeaf]
    split <;> rfl
  | _ => rfl

theorem checkAll_rename (ops : List Op) :
    limits.checkAll (Op.renameAll f ops) = (limits.checkAll ops).mapError (ValidationError.rename f) := by
  induction ops using Op.forest with
  | nil => rfl
  | leaf block action ops ih =>
    simp only [Op.renameAll, Op.rename, checkAll, check, checkLeaf_rename, ih]
    cases checkLeaf block action <;> rfl
  | loop block count body ops inner ih =>
    simp only [Op.renameAll, Op.rename, checkAll, check, inner, ih]
    by_cases large : limits.maxRepeat < count
    · simp only [if_pos large]
      rfl
    · simp only [if_neg large]
      cases limits.checkAll body <;> rfl

theorem judged_rename (ops : List Op) : judged (Op.renameAll f ops) = Op.renameAll f (judged ops) := by
  cases ops with
  | nil => rfl
  | cons op ops =>
    simp only [Op.renameAll, judged, Op.isStart_rename]
    split <;> rfl

theorem validate_rename (p : Program) :
    limits.validate (p.rename f) = (limits.validate p).mapError (ValidationError.rename f) := by
  have depth : (p.rename f).depth = p.depth := Op.depths_renameAll f p.ops
  simp only [validate, Program.rename, Op.all_isStart_renameAll, judged_rename, checkAll_rename] at depth ⊢
  rw [depth]
  split
  next => rfl
  next =>
    split
    next => rfl
    next => rfl

end Limits

end BlockPlay

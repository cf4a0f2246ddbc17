import BlockPlay.Compile.Config
import BlockPlay.Compile.Resolve
import BlockPlay.Compile.Error

/-!
From blocks to a program. The walk starts at the first start block at the top level and follows the
links downwards; loops hold the chain in their body input. Each block visited uses up one unit of a
budget shared by all chains, so that cycles end in a truncated program.
-/
namespace BlockPlay

/-- The absolute value; the least number, which has none, gives the greatest. -/
def saturatingAbs (n : Int32) : Int32 :=
  if n = Int32.minValue then Int32.maxValue else if n < 0 then -n else n

/-- Whole steps toward zero, held within 32 bits. -/
def stepsOf (x : Float) : Int32 :=
  Int32.ofInt (Decimal.clampWhole Int32.minValue.toInt Int32.maxValue.toInt
    Decimal.Binary.truncate x)

/-- A whole count toward zero, held within 32 bits. -/
def countOf (x : Float) : UInt32 :=
  UInt32.ofNat (Decimal.clampWhole 0 (UInt32.size - 1) Decimal.Binary.truncate x).toNat

/-- The nearest whole number of milliseconds, held within 64 bits. -/
def millisOf (x : Float) : UInt64 :=
  UInt64.ofNat (Decimal.clampWhole 0 (UInt64.size - 1) Decimal.Binary.round x).toNat

namespace BlockGraph

variable {Node : Type}

/-- Milliseconds come before seconds, and both before an unnamed number. -/
def waitMillis (g : BlockGraph Node) (node : Node) : UInt64 :=
  let named := (g.number? Argument.millis.names node).or
    ((g.number? Argument.seconds.names node).map (· * 1000))
  millisOf (named.getD (Argument.genericWait.read g node))

def colorFields : List String := ["COLOR", "COLOUR"]

def action? (g : BlockGraph Node) (node : Node) : BlockClass → Option Action
  | .start => some .start
  | .move => some (.move (stepsOf (Argument.steps.read g node)))
  | .back => some (.move (-saturatingAbs (stepsOf (Argument.steps.read g node))))
  | .turnLeft => some (.turn .left (Argument.degrees.read g node))
  | .turnRight => some (.turn .right (Argument.degrees.read g node))
  | .loop => none
  | .wait => some (.wait (g.waitMillis node))
  | .penUp => some (.pen false)
  | .penDown => some (.pen true)
  | .color => some (.color ((g.text? colorFields node).getD "#000000"))
  | .width => some (.width (Argument.width.read g node))
  | .collect => some .collect
  | .plant => some .plant
  | .water => some .water
  | .harvest => some .harvest

def count (g : BlockGraph Node) (node : Node) : UInt32 := countOf (Argument.times.read g node)

def body? (g : BlockGraph Node) (node : Node) : Option Node :=
  (g.input? node "DO").or (g.input? node "SUBSTACK")

end BlockGraph

namespace Compile

/-- What a walk with a budget leaves behind. -/
structure Walk (budget : Nat) where
  ops : Except CompileError (List Op)
  left : Nat
  truncated : Bool
  left_le : left ≤ budget

/-- The chain that starts at a block, inside `depth` loops. -/
def chain {Node : Type} (g : BlockGraph Node) (config : Config) (budget depth : Nat) :
    Option Node → Walk budget
  | none => ⟨.ok [], budget, false, Nat.le_refl _⟩
  | some node =>
    match budget with
    | 0 => ⟨.ok [], 0, true, Nat.le_refl _⟩
    | left + 1 =>
      match config.classify (g.kind node) with
      | none => ⟨.error (.unknownBlock (g.id node) (g.kind node)), left, false, Nat.le_succ _⟩
      | some c =>
        match g.action? node c with
        | some action =>
          let rest := chain g config left depth (g.next? node)
          ⟨rest.ops.map (.leaf (g.id node) action :: ·), rest.left, rest.truncated,
            Nat.le_succ_of_le rest.left_le⟩
        | none =>
          if config.maxDepth < depth + 1 then
            ⟨.error (.nestingTooDeep (g.id node) config.maxDepth), left, false, Nat.le_succ _⟩
          else
            let inner := chain g config left (depth + 1) (g.body? node)
            match inner.ops with
            | .error e => ⟨.error e, inner.left, inner.truncated, Nat.le_succ_of_le inner.left_le⟩
            | .ok body =>
              let rest := chain g config inner.left depth (g.next? node)
              ⟨rest.ops.map (.loop (g.id node) (g.count node) body :: ·), rest.left,
                inner.truncated || rest.truncated,
                Nat.le_succ_of_le (Nat.le_trans rest.left_le inner.left_le)⟩
termination_by budget
decreasing_by
  · exact Nat.lt_succ_self _
  · exact Nat.lt_succ_self _
  · exact Nat.lt_succ_of_le (Walk.left_le _)

end Compile

/-- A compiler remembers how many blocks its last compilation visited, and whether it was cut off. -/
structure Compiler where
  config : Config
  visited : Nat
  truncated : Bool
  deriving DecidableEq, Repr

namespace Compiler

def new (config : Config) : Compiler := ⟨config, 0, false⟩

def start? {Node : Type} (config : Config) (g : BlockGraph Node) : Option Node :=
  g.top.find? fun node => config.classify (g.kind node) = some .start

def compile {Node : Type} (compiler : Compiler) (g : BlockGraph Node) :
    Except CompileError Program × Compiler :=
  let config := compiler.config
  match start? config g with
  | none => (.error (.missingStart (config.tags .start)), ⟨config, 0, false⟩)
  | some node =>
    let walk := Compile.chain g config config.maxBlocks 0 (some node)
    (walk.ops.map Program.mk, ⟨config, config.maxBlocks - walk.left, walk.truncated⟩)

end Compiler

def compile {Node : Type} (config : Config) (g : BlockGraph Node) : Except CompileError Program :=
  ((Compiler.new config).compile g).1

end BlockPlay

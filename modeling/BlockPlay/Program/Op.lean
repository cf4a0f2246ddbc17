import BlockPlay.Decimal.Style

/-!
Instructions. An `Op` is a leaf, which a game carries out, or a loop over a list of further ops; each
names the block of the editor that it stands for.
-/
namespace BlockPlay

structure BlockId where
  text : String
  deriving DecidableEq, Repr, Inhabited

instance : ToString BlockId := ⟨BlockId.text⟩

inductive Direction where
  | left
  | right
  deriving DecidableEq, Repr, Inhabited

namespace Direction

/-- Counter-clockwise is positive. -/
def sign : Direction → Int
  | left => 1
  | right => -1

def name : Direction → String
  | left => "left"
  | right => "right"

end Direction

inductive Action where
  | start
  | move (steps : Int32)
  | turn (direction : Direction) (degrees : Float)
  | wait (millis : UInt64)
  | pen (down : Bool)
  | color (color : String)
  | width (width : Float)
  | collect
  | plant
  | water
  | harvest
  deriving DecidableEq, Repr, Inhabited

namespace Action

def name : Action → String
  | start => "start"
  | move _ => "move"
  | turn .. => "turn"
  | wait _ => "wait"
  | pen _ => "pen"
  | color _ => "color"
  | width _ => "width"
  | collect => "collect"
  | plant => "plant"
  | water => "water"
  | harvest => "harvest"

def describe : Action → String
  | move steps => s!"move({steps.toInt})"
  | turn direction degrees => s!"turn({direction.name}, {Decimal.plain.render degrees})"
  | wait millis => s!"wait({millis.toNat}ms)"
  | pen down => if down then "pen(down)" else "pen(up)"
  | color c => s!"color({c})"
  | width w => s!"width({Decimal.plain.render w})"
  | action => action.name

/-- Equality in which numbers compare as numbers: zero has one value and NaN equals nothing. -/
def agrees : Action → Action → Bool
  | turn d x, turn d' x' => d == d' && x == x'
  | width x, width x' => x == x'
  | a, b => a == b

end Action

inductive Op where
  | leaf (block : BlockId) (action : Action)
  | loop (block : BlockId) (count : UInt32) (body : List Op)
  deriving Repr, Inhabited

namespace Op

def block : Op → BlockId
  | leaf block _ => block
  | loop block .. => block

def isLeaf : Op → Bool
  | leaf .. => true
  | loop .. => false

def isStart : Op → Bool
  | leaf _ .start => true
  | _ => false

def name : Op → String
  | leaf _ action => action.name
  | loop .. => "repeat"

def describe : Op → String
  | leaf _ action => action.describe
  | loop _ count body => s!"repeat({count.toNat}, {body.length} ops)"

mutual

/-- The number of leaves, the body of a loop counting once. -/
def leafCount : Op → Nat
  | leaf .. => 1
  | loop _ _ body => leafCounts body

def leafCounts : List Op → Nat
  | [] => 0
  | op :: ops => op.leafCount + leafCounts ops

end

mutual

/-- The number of levels: a leaf is one, a loop adds one to its deepest op. -/
def depth : Op → Nat
  | leaf .. => 1
  | loop _ _ body => 1 + depths body

def depths : List Op → Nat
  | [] => 0
  | op :: ops => max op.depth (depths ops)

end

mutual

/-- The leaves in the order in which they run, each loop written out as often as it repeats. -/
def unroll : Op → List Op
  | leaf block action => [leaf block action]
  | loop _ count body => (List.replicate count.toNat (unrolls body)).flatten

def unrolls : List Op → List Op
  | [] => []
  | op :: ops => op.unroll ++ unrolls ops

end

mutual

/-- Equality of trees in which numbers compare as numbers. -/
def agrees : Op → Op → Bool
  | leaf b a, leaf b' a' => b == b' && a.agrees a'
  | loop b n body, loop b' n' body' => b == b' && n == n' && allAgree body body'
  | _, _ => false

def allAgree : List Op → List Op → Bool
  | [], [] => true
  | op :: ops, op' :: ops' => op.agrees op' && allAgree ops ops'
  | _, _ => false

end

end Op

/-- A compiled script: its ops at the top level, in order. -/
structure Program where
  ops : List Op
  deriving Repr, Inhabited

namespace Program

def leafCount (p : Program) : Nat := Op.leafCounts p.ops

/-- A program without ops has no level. -/
def depth (p : Program) : Nat := Op.depths p.ops

def unroll (p : Program) : List Op := Op.unrolls p.ops

def firstBlock? (p : Program) : Option BlockId := p.ops.head?.map Op.block

def agrees (p q : Program) : Bool := Op.allAgree p.ops q.ops

end Program

end BlockPlay

import BlockPlay.Compile.Error

/-!
Checks of a program before it runs. The first problem in the order of the program is the one that is
reported, after those of the program as a whole.
-/
namespace BlockPlay

structure Limits where
  maxRepeat : UInt32
  maxDepth : Nat
  deriving DecidableEq, Repr

namespace Limits

/-- A loop in as many others as a compiler allows, with its leaf, is still within the depth. -/
def default : Limits := ⟨10000, 33⟩

end Limits

inductive BadNumber where
  | degrees
  | width
  deriving DecidableEq, Repr

def BadNumber.name : BadNumber → String
  | degrees => "degrees"
  | width => "width"

inductive ValidationError where
  | empty
  | misplacedStart (block : BlockId)
  | repeatTooLarge (block : BlockId) (count max : UInt32)
  | tooDeep (depth max : Nat)
  | invalidNumber (block : BlockId) (field : BadNumber) (value : Float)
  deriving DecidableEq, Repr

namespace ValidationError

def message : ValidationError → String
  | empty => "program is empty: attach some blocks to the start block"
  | misplacedStart block => s!"start block '{block}' may only appear at the beginning of the program"
  | repeatTooLarge block count max =>
    s!"loop '{block}' repeats {count.toNat} times (maximum is {max.toNat})"
  | tooDeep depth max => s!"program nests loops {depth} levels deep (maximum is {max})"
  | invalidNumber block field value =>
    s!"block '{block}' has an invalid {field.name}: {Decimal.plain.render value}"

def shown : ValidationError → String
  | empty => "Empty"
  | misplacedStart block => Text.record "MisplacedStart" [("block", block.shown)]
  | repeatTooLarge block count max =>
    Text.record "RepeatTooLarge"
      [("block", block.shown), ("count", toString count.toNat), ("max", toString max.toNat)]
  | tooDeep depth max =>
    Text.record "TooDeep" [("depth", toString depth), ("max", toString max)]
  | invalidNumber block field value =>
    Text.record "InvalidNumber"
      [("block", block.shown), ("field", Text.quoted field.name),
        ("value", Decimal.literal.render value)]

/-- Equality in which numbers compare as numbers. -/
def agrees : ValidationError → ValidationError → Bool
  | invalidNumber b f x, invalidNumber b' f' x' => b == b' && f == f' && x == x'
  | e, e' => e == e'

end ValidationError

namespace Limits

def checkLeaf (block : BlockId) : Action → Except ValidationError Unit
  | .start => .error (.misplacedStart block)
  | .turn _ degrees =>
    if degrees.isFinite then .ok () else .error (.invalidNumber block .degrees degrees)
  | .width width =>
    if !width.isFinite || width ≤ 0 then .error (.invalidNumber block .width width) else .ok ()
  | _ => .ok ()

mutual

/-- A loop is judged before its body. -/
def check (limits : Limits) : Op → Except ValidationError Unit
  | .leaf block action => checkLeaf block action
  | .loop block count body =>
    if limits.maxRepeat < count then .error (.repeatTooLarge block count limits.maxRepeat)
    else limits.checkAll body

def checkAll (limits : Limits) : List Op → Except ValidationError Unit
  | [] => .ok ()
  | op :: ops =>
    match limits.check op with
    | .ok () => limits.checkAll ops
    | .error e => .error e

end

/-- The ops that are judged one by one: all but a start at the very beginning. -/
def judged : List Op → List Op
  | op :: ops => if op.isStart then ops else op :: ops
  | [] => []

def validate (limits : Limits) (p : Program) : Except ValidationError Unit :=
  if p.ops.all Op.isStart then .error .empty
  else if limits.maxDepth < p.depth then .error (.tooDeep p.depth limits.maxDepth)
  else limits.checkAll (judged p.ops)

end Limits

def validate (p : Program) : Except ValidationError Unit := Limits.default.validate p

end BlockPlay

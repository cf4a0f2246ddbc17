import BlockPlay.Entries
import BlockPlay.Graph.Basic
import BlockPlay.Json.Value

/-!
Blocks as an editor saves them: each holds the blocks in its inputs and the one below it. A connection
can hold a block, a shadow that stands in while there is no block, or both.
-/
namespace BlockPlay

namespace Workspace

mutual

inductive Block where
  | mk (kind : String) (id : BlockId) (fields : List (String × Json.Value))
    (inputs : List (String × Connection)) (next : Option Connection)
  deriving Repr

inductive Connection where
  | mk (block shadow : Option Block)
  deriving Repr

end

instance : Inhabited Connection := ⟨.mk none none⟩
instance : Inhabited Block := ⟨.mk "" ⟨""⟩ [] [] none⟩

namespace Connection

def block : Connection → Option Block
  | mk block _ => block

def shadow : Connection → Option Block
  | mk _ shadow => shadow

/-- The block that counts: the real one, else the shadow. -/
def target? (c : Connection) : Option Block := c.block.or c.shadow

end Connection

namespace Block

def kind : Block → String
  | mk kind .. => kind

def id : Block → BlockId
  | mk _ id .. => id

def fields : Block → Entries Json.Value
  | mk _ _ fields .. => fields

def inputs : Block → Entries Connection
  | mk _ _ _ inputs _ => inputs

def next : Block → Option Connection
  | mk _ _ _ _ next => next

end Block

end Workspace

structure Workspace where
  top : List Workspace.Block
  deriving Repr, Inhabited

namespace Workspace

/-- Numbers, texts and flags can be values of fields. -/
def fieldValue? : Json.Value → Option FieldValue
  | .number n => some (.number n.toFloat)
  | .string s => some (.text s)
  | .bool b => some (.bool b)
  | _ => none

def graph (w : Workspace) : BlockGraph Block where
  top := w.top
  id := Block.id
  kind := Block.kind
  next? b := b.next.bind Connection.target?
  input? b name := (Entries.get? name b.inputs).bind Connection.target?
  field? b name := (Entries.get? name b.fields).bind fieldValue?

/-- The name of a block, or the next fresh one if it has none, and the number of names used. -/
def nameOr (fresh : Nat → BlockId) (used : Nat) (id : BlockId) : BlockId × Nat :=
  if id.text = "" then (fresh used, used + 1) else (id, used)

mutual

/-- Gives fresh names to the blocks without one, in a block and all that it holds. -/
def Block.fill (fresh : Nat → BlockId) (used : Nat) : Block → Block × Nat
  | .mk kind id fields inputs next =>
    let named := nameOr fresh used id
    let filled := fillInputs fresh named.2 inputs
    let below := fillConnection fresh filled.2 next
    (.mk kind named.1 fields filled.1 below.1, below.2)

def Connection.fill (fresh : Nat → BlockId) (used : Nat) : Connection → Connection × Nat
  | .mk block shadow =>
    let first := fillBlock fresh used block
    let second := fillBlock fresh first.2 shadow
    (.mk first.1 second.1, second.2)

def fillBlock (fresh : Nat → BlockId) (used : Nat) : Option Block → Option Block × Nat
  | none => (none, used)
  | some b =>
    let filled := b.fill fresh used
    (some filled.1, filled.2)

def fillConnection (fresh : Nat → BlockId) (used : Nat) : Option Connection → Option Connection × Nat
  | none => (none, used)
  | some c =>
    let filled := c.fill fresh used
    (some filled.1, filled.2)

def fillInputs (fresh : Nat → BlockId) (used : Nat) :
    List (String × Connection) → List (String × Connection) × Nat
  | [] => ([], used)
  | (name, c) :: rest =>
    let first := c.fill fresh used
    let others := fillInputs fresh first.2 rest
    ((name, first.1) :: others.1, others.2)

end

def fillBlocks (fresh : Nat → BlockId) (used : Nat) : List Block → List Block × Nat
  | [] => ([], used)
  | b :: rest =>
    let first := b.fill fresh used
    let others := fillBlocks fresh first.2 rest
    (first.1 :: others.1, others.2)

def ofBlocks (fresh : Nat → BlockId) (blocks : List Block) : Workspace :=
  ⟨(fillBlocks fresh 0 blocks).1⟩

end Workspace

end BlockPlay

import BlockPlay.Graph.Workspace
import BlockPlay.Json.Reading

/-!
Workspaces as JSON documents. The list of blocks may stand by itself or in an object under the key
`blocks`, and that object in another one.
-/
namespace BlockPlay.Workspace

open Json (Value Tree Context Problem)

mutual

def Block.toValue : Block → Value
  | .mk kind id fields inputs next =>
    .object (("type", .string kind) :: ("id", .string id.text)
      :: ((if fields.isEmpty then [] else [("fields", Value.object fields)])
        ++ (if inputs.isEmpty then [] else [("inputs", Value.object (inputValues inputs))])
        ++ connectionMember "next" next))

def Connection.toValue : Connection → Value
  | .mk block shadow => .object (blockMember "block" block ++ blockMember "shadow" shadow)

def blockMember (name : String) : Option Block → List (String × Value)
  | none => []
  | some b => [(name, b.toValue)]

def connectionMember (name : String) : Option Connection → List (String × Value)
  | none => []
  | some c => [(name, c.toValue)]

def inputValues : List (String × Connection) → List (String × Value)
  | [] => []
  | (name, c) :: rest => (name, c.toValue) :: inputValues rest

end

def toValue (w : Workspace) : Value := .array (w.top.map Block.toValue)

namespace Block

def setKind (kind : String) : Block → Block
  | mk _ id fields inputs next => mk kind id fields inputs next

def setId (id : String) : Block → Block
  | mk kind _ fields inputs next => mk kind ⟨id⟩ fields inputs next

def setFields (fields : Entries Value) : Block → Block
  | mk kind id _ inputs next => mk kind id fields inputs next

def setInputs (inputs : Entries Connection) : Block → Block
  | mk kind id fields _ next => mk kind id fields inputs next

def setNext (next : Option Connection) : Block → Block
  | mk kind id fields inputs _ => mk kind id fields inputs next

end Block

namespace Connection

def setBlock (block : Option Block) : Connection → Connection
  | mk _ shadow => mk block shadow

def setShadow (shadow : Option Block) : Connection → Connection
  | mk block _ => mk block shadow

end Connection

def readFields (c : Context) (t : Tree) : Except Problem (Entries Value) :=
  t.readMap c Entries.put .ok (Tree.anySize Tree.readValue)

mutual

def Block.read (c : Context) (t : Tree) : Except Problem Block :=
  t.readRecord c "struct BlockJson" default
    [Tree.field "type" true (fun _ => Tree.readString) Block.setKind,
      Tree.field "id" false (fun _ => Tree.readString) Block.setId,
      Tree.field "fields" false readFields Block.setFields,
      ⟨"inputs", false, fun c part small b =>
        (part.readMap c Entries.put .ok fun c plugged smaller =>
          have := Nat.lt_trans smaller small
          Connection.read c plugged).map (Block.setInputs · b)⟩,
      ⟨"next", false, fun c part small b =>
        have := small
        if part.isNull then .ok (b.setNext none)
        else (Connection.read c part).map fun below => b.setNext (some below)⟩]
termination_by sizeOf t
decreasing_by all_goals assumption

def Connection.read (c : Context) (t : Tree) : Except Problem Connection :=
  t.readRecord c "struct Connection" default
    [⟨"block", false, fun c part small found =>
        have := small
        if part.isNull then .ok (found.setBlock none)
        else (Block.read c part).map fun b => found.setBlock (some b)⟩,
      ⟨"shadow", false, fun c part small found =>
        have := small
        if part.isNull then .ok (found.setShadow none)
        else (Block.read c part).map fun b => found.setShadow (some b)⟩]
termination_by sizeOf t
decreasing_by all_goals assumption

end

def wanted (wrappers : Nat) : String :=
  if wrappers = 0 then "a list of blocks"
  else "a list of blocks or an object with a `blocks` key"

/-- Looks among the members of a wrapper for the blocks, which must be there once. -/
def readWrapped (c : Context) (inner : Context → Tree → Except Problem (List Block))
    (blocks : Option (List Block)) : List (Json.Literal × Tree) → Except Problem (Option (List Block))
  | [] => .ok blocks
  | (key, t) :: rest => do
    if (← key.read) == "blocks" then
      if blocks.isSome then throw (.duplicateField "blocks")
      readWrapped c inner (some (← inner c t)) rest
    else
      t.skip
      readWrapped c inner blocks rest

def readBlocks : Nat → Context → Tree → Except Problem (List Block)
  | _, c, .array items flaw => Tree.readList c (.array items flaw) (Tree.anySize Block.read)
  | 0, c, .object .. => do
    let _ ← c.enter
    throw (.wrongType .map (wanted 0))
  | wrappers + 1, c, .object members flaw => do
    let inner ← c.enter
    let blocks ← readWrapped inner (readBlocks wrappers) none members
    Json.failOn flaw
    match blocks with
    | some blocks => return blocks
    | none => throw (.missingField "blocks")
  | wrappers, _, t => t.wrong (wanted wrappers)

def maxWrappers : Nat := 2

/-- The workspace in a text, which may nest to any depth. -/
def ofBytes (fresh : Nat → BlockId) (bytes : List UInt8) : Except Problem Workspace :=
  ((Json.Document.ofBytes bytes).read (readBlocks maxWrappers .deepText)).map (ofBlocks fresh)

def ofValue (fresh : Nat → BlockId) (v : Value) : Except Problem Workspace :=
  (readBlocks maxWrappers .value v.tree).map (ofBlocks fresh)

def problemMessage (p : Problem) : String := "invalid block workspace: " ++ p.message

end BlockPlay.Workspace

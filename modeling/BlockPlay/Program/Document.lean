import BlockPlay.Json.Reading
import BlockPlay.Program.Op

/-!
Programs as JSON documents: a list of ops, each an object with the block, the name of the instruction
and its arguments. An op is judged only when its object has been read to the end.
-/
namespace BlockPlay

open Json (Value Tree Context Problem)

namespace Op

def names : List String :=
  ["start", "move", "turn", "wait", "pen", "color", "width", "collect", "plant", "water", "harvest",
    "repeat"]

end Op

namespace Action

def arguments : Action → List (String × Value)
  | move n => [("steps", .number (.integer n.toInt))]
  | turn d x => [("direction", .string d.name), ("degrees", .finite x)]
  | wait n => [("millis", .natural n.toNat)]
  | pen down => [("down", .bool down)]
  | color c => [("color", .string c)]
  | width w => [("width", .finite w)]
  | _ => []

end Action

namespace Op

mutual

def toValue : Op → Value
  | leaf block action =>
    .object (("block", .string block.text) :: ("op", .string action.name) :: action.arguments)
  | loop block count body =>
    .object [("block", .string block.text), ("op", .string "repeat"),
      ("count", .natural count.toNat), ("body", .array (toValues body))]

def toValues : List Op → List Value
  | [] => []
  | op :: ops => op.toValue :: toValues ops

end

/-- Reads the members of an op for the first time: the block is kept, the rest must be values. -/
def readBlock (c : Context) (block : Option BlockId) :
    List (Json.Literal × Tree) → Except Problem (Option BlockId)
  | [] => .ok block
  | (key, t) :: rest => do
    if (← key.read) == "block" then
      if block.isSome then throw (.duplicateField "block")
      readBlock c (some ⟨← t.readString⟩) rest
    else
      let _ ← t.readValue c
      readBlock c block rest

def readName : Tree → Except Problem String
  | .string s => do Tree.variant names (← s.read)
  | .number (some (.integer n)) =>
    if n < 0 then throw (.wrongType (.integer n) "variant identifier")
    else
      match names[n.toNat]? with
      | some name => .ok name
      | none => throw (.wrongValue (.integer n) "variant index 0 <= i < 12")
  | t => t.wrong "variant identifier"

def readTag (tag : Option String) : List (Json.Literal × Tree) → Except Problem (Option String)
  | [] => .ok tag
  | (key, t) :: rest => do
    if (← key.read) == "op" then
      if tag.isSome then throw (.duplicateField "op")
      readTag (some (← readName t)) rest
    else readTag tag rest

def readDirection (c : Context) (t : Tree) : Except Problem Direction :=
  (t.readVariant c ["left", "right"]).map fun name => if name = "left" then .left else .right

/-- What an instruction is before its arguments are read. -/
def blank (block : BlockId) : String → Op
  | "move" => .leaf block (.move 0)
  | "turn" => .leaf block (.turn .left 0)
  | "wait" => .leaf block (.wait 0)
  | "pen" => .leaf block (.pen false)
  | "color" => .leaf block (.color "")
  | "width" => .leaf block (.width 0)
  | "collect" => .leaf block .collect
  | "plant" => .leaf block .plant
  | "water" => .leaf block .water
  | "harvest" => .leaf block .harvest
  | "repeat" => .loop block 0 []
  | _ => .leaf block .start

def setDirection (d : Direction) : Op → Op
  | .leaf b (.turn _ x) => .leaf b (.turn d x)
  | op => op

def setDegrees (x : Float) : Op → Op
  | .leaf b (.turn d _) => .leaf b (.turn d x)
  | op => op

def setCount (n : UInt32) : Op → Op
  | .loop b _ body => .loop b n body
  | op => op

def setBody (body : List Op) : Op → Op
  | .loop b n _ => .loop b n body
  | op => op

def setAction (action : Action) (op : Op) : Op := .leaf op.block action

def fields {n : Nat} : String → List (Tree.Field n Op)
  | "move" => [Tree.field "steps" true (fun _ => Tree.readInt32) fun k => setAction (.move k)]
  | "turn" =>
    [Tree.field "direction" true readDirection setDirection,
      Tree.field "degrees" true (fun _ => Tree.readFloat) setDegrees]
  | "wait" => [Tree.field "millis" true (fun _ => Tree.readUInt64) fun k => setAction (.wait k)]
  | "pen" => [Tree.field "down" true (fun _ => Tree.readBool) fun b => setAction (.pen b)]
  | "color" => [Tree.field "color" true (fun _ => Tree.readString) fun s => setAction (.color s)]
  | "width" => [Tree.field "width" true (fun _ => Tree.readFloat) fun x => setAction (.width x)]
  | _ => []

/-- Reads an op. Its arguments are kept until the instruction is known. -/
def read (c : Context) (t : Tree) : Except Problem Op :=
  match t with
  | .object members flaw => do
    let inner ← c.enter
    let block ← readBlock inner none members
    Json.failOn flaw
    match block with
    | none => throw (.missingField "block")
    | some block =>
      match ← readTag none members with
      | none => throw (.missingField "op")
      | some name =>
        let arguments : List (Tree.Field (sizeOf (Tree.object members flaw)) Op) :=
          if name = "repeat" then
            [Tree.field "count" true (fun _ => Tree.readUInt32) setCount,
              ⟨"body", true, fun c t small op =>
                (t.readList c fun c part smaller =>
                  have := Nat.lt_trans smaller small
                  read c part).map (setBody · op)⟩]
          else fields name
        let (seen, op) ← Tree.readMembers .kept arguments members
          (fun _ inside => Tree.member_small inside) [] (blank block name)
        match Tree.lacking? arguments seen with
        | some field => throw (.missingField field)
        | none => return op
  | t => t.wrong "struct Op"
termination_by sizeOf t
decreasing_by assumption

end Op

namespace Program

def toValue (p : Program) : Value := .array (Op.toValues p.ops)

def read (c : Context) (t : Tree) : Except Problem Program :=
  (t.readList c (Tree.anySize Op.read)).map Program.mk

def ofBytes (bytes : List UInt8) : Except Problem Program :=
  (Json.Document.ofBytes bytes).read (read .text)

end Program

end BlockPlay

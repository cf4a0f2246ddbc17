import BlockPlay.Compile.Config
import BlockPlay.Compile.Validate
import BlockPlay.Json.Reading

/-!
Configurations and limits as JSON documents. Every part of them may be left out.
-/
namespace BlockPlay

open Json (Value Tree Context Problem)

namespace BlockClass

def read (name : String) : Except Problem BlockClass :=
  match ofName? name with
  | some c => .ok c
  | none => .error (.unknownVariant name (all.map BlockClass.name))

end BlockClass

namespace Config

def toValue (config : Config) : Value :=
  .object [("classes", .object (config.classes.map fun (c, tags) => (c.name, .strings tags))),
    ("max_blocks", .natural config.maxBlocks), ("max_depth", .natural config.maxDepth)]

/-- The tags of one class; each counts once. -/
def readTags (c : Context) (t : Tree) : Except Problem (List String) :=
  (t.readList c (Tree.anySize fun _ => Tree.readString)).map fun tags =>
    tags.foldl (fun known tag => insertName tag known) []

def readClasses (c : Context) (t : Tree) : Except Problem (List (BlockClass × List String)) :=
  t.readMap c (fun k tags => update k fun _ => tags) BlockClass.read (Tree.anySize readTags)

def read (c : Context) (t : Tree) : Except Problem Config :=
  t.readRecord c "struct CompilerConfig" empty
    [Tree.field "classes" false readClasses fun cs config => { config with classes := cs },
      Tree.field "max_blocks" false (fun _ => Tree.readSize) fun n config =>
        { config with maxBlocks := n },
      Tree.field "max_depth" false (fun _ => Tree.readSize) fun n config =>
        { config with maxDepth := n }]

def ofBytes (bytes : List UInt8) : Except Problem Config :=
  (Json.Document.ofBytes bytes).read (read .text)

end Config

namespace Limits

def read (c : Context) (t : Tree) : Except Problem Limits :=
  t.readRecord c "struct ValidationLimits" default
    [Tree.field "max_repeat" false (fun _ => Tree.readUInt32) fun n limits =>
        { limits with maxRepeat := n },
      Tree.field "max_depth" false (fun _ => Tree.readSize) fun n limits =>
        { limits with maxDepth := n }]

def ofBytes (bytes : List UInt8) : Except Problem Limits :=
  (Json.Document.ofBytes bytes).read (read .text)

end Limits

end BlockPlay

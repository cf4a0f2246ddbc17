import BlockPlay.Json.Reading

/-!
The settings of a run, as a JSON document.
-/
namespace BlockPlay

open Json (Tree Context Problem)

structure RunSettings where
  maxSteps : Nat
  deriving DecidableEq, Repr

namespace RunSettings

def default : RunSettings := ⟨100000⟩

def read (c : Context) (t : Tree) : Except Problem RunSettings :=
  t.readRecord c "struct RuntimeConfig" default
    [Tree.field "max_steps" false (fun _ => Tree.readUInt64) fun n _ => ⟨n.toNat⟩]

def ofBytes (bytes : List UInt8) : Except Problem RunSettings :=
  (Json.Document.ofBytes bytes).read (read .text)

end RunSettings

end BlockPlay

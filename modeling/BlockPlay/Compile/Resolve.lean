import BlockPlay.Graph.Basic

/-!
Arguments of blocks. An argument is looked for under several names, first in the fields of the block
itself and then in the literal blocks plugged into its inputs; a value that cannot be read as what
is wanted counts as absent.
-/
namespace BlockPlay

/-- The fields in which literal blocks keep their value. -/
def literalFields : List String := ["NUM", "VALUE", "TEXT"]

namespace BlockGraph

variable {Node α : Type}

/-- The first of the named fields of a block that can be read. -/
def direct? (g : BlockGraph Node) (convert : FieldValue → Option α) (names : List String)
    (node : Node) : Option α :=
  names.findSome? fun name => (g.field? node name).bind convert

/-- What a literal block holds: under the wanted names, else under those of literals. -/
def literal? (g : BlockGraph Node) (convert : FieldValue → Option α) (names : List String)
    (node : Node) : Option α :=
  (g.direct? convert names node).or (g.direct? convert literalFields node)

/-- The first value in the fields of a block, else in the literals of its inputs. -/
def resolve? (g : BlockGraph Node) (convert : FieldValue → Option α) (names : List String)
    (node : Node) : Option α :=
  (g.direct? convert names node).or
    (names.findSome? fun slot => (g.input? node slot).bind (g.literal? convert names))

def number? (g : BlockGraph Node) (names : List String) (node : Node) : Option Float :=
  g.resolve? FieldValue.asNumber? names node

def text? (g : BlockGraph Node) (names : List String) (node : Node) : Option String :=
  g.resolve? FieldValue.asText? names node

end BlockGraph

/-- A numeric argument: the names it goes by, in order, and its value when none of them has one. -/
structure Argument where
  names : List String
  default : Float
  deriving DecidableEq, Repr

namespace Argument

def steps : Argument := ⟨["STEPS", "DISTANCE", "NUM", "N"], 1⟩
def degrees : Argument := ⟨["DEGREES", "ANGLE", "NUM"], 90⟩
def times : Argument := ⟨["TIMES", "COUNT", "NUM"], 2⟩
def millis : Argument := ⟨["MS", "MILLIS"], 500⟩
def seconds : Argument := ⟨["SECONDS", "SECS"], 0.5⟩
def genericWait : Argument := ⟨["NUM", "N"], 500⟩
def width : Argument := ⟨["WIDTH", "NUM"], 1⟩

def read {Node : Type} (a : Argument) (g : BlockGraph Node) (node : Node) : Float :=
  (g.number? a.names node).getD a.default

end Argument

end BlockPlay

import BlockPlay.Entries

/-!
What a game calls its blocks. A `Config` lists, for each class of instruction, the tags of the blocks
that compile to it; a tag listed twice belongs to the first of its classes.
-/
namespace BlockPlay

inductive BlockClass where
  | start
  | move
  | back
  | turnLeft
  | turnRight
  | loop
  | wait
  | penUp
  | penDown
  | color
  | width
  | collect
  | plant
  | water
  | harvest
  deriving DecidableEq, Repr, Inhabited

namespace BlockClass

def all : List BlockClass :=
  [start, move, back, turnLeft, turnRight, loop, wait, penUp, penDown, color, width, collect,
    plant, water, harvest]

def rank (c : BlockClass) : Nat := c.ctorIdx

def name : BlockClass → String
  | start => "start"
  | move => "move"
  | back => "back"
  | turnLeft => "turn_left"
  | turnRight => "turn_right"
  | loop => "repeat"
  | wait => "wait"
  | penUp => "pen_up"
  | penDown => "pen_down"
  | color => "color"
  | width => "width"
  | collect => "collect"
  | plant => "plant"
  | water => "water"
  | harvest => "harvest"

def ofName? (name : String) : Option BlockClass := all.find? (·.name == name)

end BlockClass

/-- The tags of each class, in the order of the classes, and the limits of a compilation. -/
structure Config where
  classes : List (BlockClass × List String)
  maxBlocks : Nat
  maxDepth : Nat
  deriving DecidableEq, Repr, Inhabited

namespace Config

def empty : Config := ⟨[], 500, 32⟩

/-- Changes the tags of one class, from none if it has no entry yet. -/
def update (c : BlockClass) (f : List String → List String) :
    List (BlockClass × List String) → List (BlockClass × List String)
  | [] => [(c, f [])]
  | (c', tags) :: rest =>
    if c = c' then (c, f tags) :: rest
    else if c.rank < c'.rank then (c, f []) :: (c', tags) :: rest
    else (c', tags) :: update c f rest

def register (config : Config) (c : BlockClass) (tags : List String) : Config :=
  let extend (known : List String) := tags.foldl (fun names tag => insertName tag names) known
  { config with classes := update c extend config.classes }

/-- The first class, in order of precedence, that lists the tag. -/
def classify (config : Config) (tag : String) : Option BlockClass :=
  (config.classes.find? fun (_, tags) => tags.contains tag).map Prod.fst

def tags (config : Config) (c : BlockClass) : List String :=
  (config.classes.find? fun (c', _) => c' = c).elim [] Prod.snd

end Config

end BlockPlay

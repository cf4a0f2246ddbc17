import BlockPlay.Entries
import BlockPlay.Graph.Basic

/-!
Blocks kept in a list and linked by their places in it. Links may form cycles. A link is stored only
between blocks of the arena, so following one always finds a block.
-/
namespace BlockPlay

structure BlockRef where
  index : Nat
  deriving DecidableEq, Repr, Inhabited

namespace Arena

structure Block where
  id : BlockId
  kind : String
  next : Option BlockRef
  inputs : Entries BlockRef
  fields : Entries FieldValue
  deriving Repr, Inhabited

end Arena

structure Arena where
  blocks : Array Arena.Block
  top : List BlockRef
  deriving Repr, Inhabited

namespace Arena

def empty : Arena := ⟨#[], []⟩

def size (a : Arena) : Nat := a.blocks.size

def block? (a : Arena) (r : BlockRef) : Option Block := a.blocks[r.index]?

def contains (a : Arena) (r : BlockRef) : Bool := r.index < a.size

def addBlock (a : Arena) (id : BlockId) (kind : String) : BlockRef × Arena :=
  (⟨a.size⟩, { a with blocks := a.blocks.push ⟨id, kind, none, [], []⟩ })

def addTop (a : Arena) (id : BlockId) (kind : String) : BlockRef × Arena :=
  let (r, grown) := a.addBlock id kind
  (r, { grown with top := grown.top ++ [r] })

/-- Changes one block; a place outside the arena changes nothing. -/
def modify (a : Arena) (r : BlockRef) (f : Block → Block) : Arena :=
  { a with blocks := a.blocks.modify r.index f }

def setNext (a : Arena) (source target : BlockRef) : Arena :=
  if a.contains target then a.modify source fun b => { b with next := some target } else a

def setInput (a : Arena) (source : BlockRef) (name : String) (target : BlockRef) : Arena :=
  if a.contains target then
    a.modify source fun b => { b with inputs := Entries.put name target b.inputs }
  else a

def setField (a : Arena) (r : BlockRef) (name : String) (value : FieldValue) : Arena :=
  a.modify r fun b => { b with fields := Entries.put name value b.fields }

def chain (a : Arena) : List BlockRef → Arena
  | source :: target :: rest => chain (a.setNext source target) (target :: rest)
  | _ => a

def graph (a : Arena) : BlockGraph Block where
  top := a.top.filterMap a.block?
  id := Block.id
  kind := Block.kind
  next? b := b.next.bind a.block?
  input? b name := (Entries.get? name b.inputs).bind a.block?
  field? b name := Entries.get? name b.fields

end Arena

end BlockPlay

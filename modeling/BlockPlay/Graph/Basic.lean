import BlockPlay.Graph.FieldValue
import BlockPlay.Program.Op

/-!
What a compiler sees of the editor: blocks at the top level, and for each block its name, its kind,
the block below it, the blocks plugged into its inputs and the values in its fields.
-/
namespace BlockPlay

/-- A view of blocks. Links may lead back, so a graph need not be a tree. -/
structure BlockGraph (Node : Type) where
  top : List Node
  id : Node → BlockId
  kind : Node → String
  next? : Node → Option Node
  input? : Node → String → Option Node
  field? : Node → String → Option FieldValue

end BlockPlay

import BlockPlay.Program.Op
import BlockPlay.Text.Record

/-!
Why a graph has no program.
-/
namespace BlockPlay

def BlockId.shown (id : BlockId) : String := Text.tagged "BlockId" [Text.quoted id.text]

inductive CompileError where
  | missingStart (tags : List String)
  | unknownBlock (id : BlockId) (kind : String)
  | nestingTooDeep (id : BlockId) (max : Nat)
  deriving DecidableEq, Repr

namespace CompileError

def expected (tags : List String) : String := String.intercalate ", " tags

def message : CompileError → String
  | missingStart tags => s!"no start block found (expected one of: {expected tags})"
  | unknownBlock id kind => s!"block '{id}' has unrecognized type '{kind}'"
  | nestingTooDeep id max => s!"loop '{id}' is nested deeper than {max} levels"

def shown : CompileError → String
  | missingStart tags => Text.record "MissingStart" [("expected", Text.quoted (expected tags))]
  | unknownBlock id kind => Text.record "UnknownBlock" [("id", id.shown), ("kind", Text.quoted kind)]
  | nestingTooDeep id max =>
    Text.record "NestingTooDeep" [("id", id.shown), ("max", toString max)]

end CompileError

end BlockPlay

import BlockPlay.Decimal.Style
import BlockPlay.Json.Token
import BlockPlay.Text.Quoted

/-!
What a reader of a document can object to.
-/
namespace BlockPlay.Json

inductive Found where
  | null
  | bool (b : Bool)
  | integer (n : Int)
  | float (x : Float)
  | string (s : String)
  | sequence
  | map
  deriving DecidableEq, Repr

namespace Found

def describe : Found → String
  | null => "null"
  | bool b => s!"boolean `{b}`"
  | integer n => s!"integer `{n}`"
  | float x => s!"floating point `{Decimal.json.render x}`"
  | string s => s!"string {Text.quoted s}"
  | sequence => "sequence"
  | map => "map"

end Found

/-- Either the text itself is wrong, or the data in it are. -/
inductive Problem where
  | flaw (f : Flaw)
  | wrongType (found : Found) (wanted : String)
  | wrongValue (found : Found) (wanted : String)
  | wrongLength (length : Nat) (wanted : String)
  | unknownVariant (name : String) (known : List String)
  | missingField (name : String)
  | duplicateField (name : String)
  | rejected (reason : String)
  deriving DecidableEq, Repr

inductive Category where
  | syntactic
  | eof
  | data
  deriving DecidableEq, Repr

namespace Problem

def category : Problem → Category
  | flaw .malformed => .syntactic
  | flaw .cutShort => .eof
  | _ => .data

def choice (names : List String) : String :=
  match names.map fun n => s!"`{n}`" with
  | [] => "there are no variants"
  | [a] => s!"expected {a}"
  | [a, b] => s!"expected {a} or {b}"
  | all => "expected one of " ++ String.intercalate ", " all

def message : Problem → String
  | flaw .malformed => "malformed text"
  | flaw .cutShort => "unexpected end of text"
  | wrongType found wanted => s!"invalid type: {found.describe}, expected {wanted}"
  | wrongValue found wanted => s!"invalid value: {found.describe}, expected {wanted}"
  | wrongLength length wanted => s!"invalid length {length}, expected {wanted}"
  | unknownVariant name known => s!"unknown variant `{name}`, {choice known}"
  | missingField name => s!"missing field `{name}`"
  | duplicateField name => s!"duplicate field `{name}`"
  | rejected reason => reason

end Problem

end BlockPlay.Json

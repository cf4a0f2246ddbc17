import BlockPlay.Text.Quoted

/-!
Values shown field by field: `Name`, `Name(a, b)`, `Name` with named contents in braces, and
lists in brackets.
-/
namespace BlockPlay.Text

def listed (items : List String) : String := "[" ++ String.intercalate ", " items ++ "]"

/-- A name with its unnamed contents. -/
def tagged (name : String) (contents : List String) : String :=
  name ++ "(" ++ String.intercalate ", " contents ++ ")"

/-- A name with its named contents. -/
def record (name : String) (fields : List (String × String)) : String :=
  name ++ " \x7b " ++ String.intercalate ", " (fields.map fun (field, value) => field ++ ": " ++ value)
    ++ " \x7d"

end BlockPlay.Text

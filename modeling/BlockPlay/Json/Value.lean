import BlockPlay.Entries

/-!
JSON values. Whole numbers within 64 bits are kept apart from the others.
-/
namespace BlockPlay.Json

/-- A whole number that fits a signed or an unsigned word of 64 bits, or any other finite number. -/
inductive Number where
  | integer (n : Int)
  | float (x : Float)
  deriving DecidableEq, Repr, Inhabited

namespace Number

def toFloat : Number → Float
  | integer n => Float.ofInt n
  | float x => x

end Number

/-- The members of an object read from a text stand in the order of their names. -/
inductive Value where
  | null
  | bool (b : Bool)
  | number (n : Number)
  | string (s : String)
  | array (items : List Value)
  | object (members : List (String × Value))
  deriving Repr, Inhabited

namespace Value

def natural (n : Nat) : Value := number (.integer n)

/-- A number that is not finite has no JSON form. -/
def finite (x : Float) : Value := if x.isFinite then number (.float x) else null

def strings (ss : List String) : Value := array (ss.map string)

end Value

end BlockPlay.Json

import BlockPlay.Decimal.Style
import BlockPlay.Json.Value
import BlockPlay.Text.Quoted

/-!
JSON text of values: on one line without spaces, or with every item on a line of its own, indented
by two spaces a level.
-/
namespace BlockPlay.Json

/-- Only what must be escaped is: the quote, the backslash and the control characters. -/
def escape (c : Char) : List Char :=
  if c = '\x22' then ['\\', '\x22']
  else if c = '\\' then ['\\', '\\']
  else if c.toNat = 8 then ['\\', 'b']
  else if c = '\t' then ['\\', 't']
  else if c = '\n' then ['\\', 'n']
  else if c.toNat = 12 then ['\\', 'f']
  else if c = '\r' then ['\\', 'r']
  else if c.toNat < 0x20 then
    ['\\', 'u', '0', '0'] ++ (if c.toNat < 0x10 then ['0'] else []) ++ Text.hex c.toNat
  else [c]

def quote (s : String) : String :=
  String.ofList ('\x22' :: (s.toList.flatMap escape ++ ['\x22']))

def Number.render : Number → String
  | integer n => toString n
  | float x => Decimal.json.render x

namespace Value

mutual

/-- The text of a value behind the text written so far. -/
def writeTo (out : String) : Value → String
  | null => out ++ "null"
  | bool b => out ++ (if b then "true" else "false")
  | number n => out ++ n.render
  | string s => out ++ quote s
  | array items => writeItems (out ++ "[") true items ++ "]"
  | object members => writeMembers (out ++ "\x7b") true members ++ "\x7d"

def writeItems (out : String) (first : Bool) : List Value → String
  | [] => out
  | v :: rest => writeItems (writeTo (if first then out else out ++ ",") v) false rest

def writeMembers (out : String) (first : Bool) : List (String × Value) → String
  | [] => out
  | (name, v) :: rest =>
    writeMembers (writeTo ((if first then out else out ++ ",") ++ quote name ++ ":") v) false rest

end

def render (v : Value) : String := writeTo "" v

def newLine (level : Nat) : String := "\n" ++ String.ofList (List.replicate (2 * level) ' ')

mutual

/-- Like `writeTo`, at a level of indentation. -/
def layTo (out : String) (level : Nat) : Value → String
  | array [] => out ++ "[]"
  | array (v :: rest) => layItems (out ++ "[") (level + 1) true (v :: rest) ++ newLine level ++ "]"
  | object [] => out ++ "\x7b\x7d"
  | object (m :: rest) =>
    layMembers (out ++ "\x7b") (level + 1) true (m :: rest) ++ newLine level ++ "\x7d"
  | v => writeTo out v

def layItems (out : String) (level : Nat) (first : Bool) : List Value → String
  | [] => out
  | v :: rest =>
    layItems (layTo ((if first then out else out ++ ",") ++ newLine level) level v) level false rest

def layMembers (out : String) (level : Nat) (first : Bool) : List (String × Value) → String
  | [] => out
  | (name, v) :: rest =>
    let start := (if first then out else out ++ ",") ++ newLine level ++ quote name ++ ": "
    layMembers (layTo start level v) level false rest

end

def renderPretty (v : Value) : String := layTo "" 0 v

end Value

end BlockPlay.Json

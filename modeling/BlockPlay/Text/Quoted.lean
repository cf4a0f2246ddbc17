import BlockPlay.Text.Printable

/-!
Text in quotes, as messages show it. A quote, a backslash and a few control characters have short
escapes; any other character that is not printable is written by its number.
-/
namespace BlockPlay.Text

def hex (n : Nat) : List Char := Nat.toDigits 16 n

def numbered (c : Char) : List Char :=
  '\\' :: 'u' :: '\x7b' :: (hex c.toNat ++ ['\x7d'])

/-- One character inside quotes of the given kind. -/
def escape (quote : Char) (c : Char) : List Char :=
  if c = quote then ['\\', c]
  else if c = '\\' then ['\\', '\\']
  else if c = '\n' then ['\\', 'n']
  else if c = '\r' then ['\\', 'r']
  else if c = '\t' then ['\\', 't']
  else if c.toNat = 0 then ['\\', '0']
  else if printable c then [c]
  else numbered c

def quoted (s : String) : String :=
  String.ofList ('\x22' :: (s.toList.flatMap (escape '\x22') ++ ['\x22']))

def quotedChar (c : Char) : String :=
  String.ofList ('\x27' :: (escape '\x27' c ++ ['\x27']))

end BlockPlay.Text

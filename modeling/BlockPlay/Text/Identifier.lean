/-!
Random identifiers of 128 bits in their usual form of five groups.
-/
namespace BlockPlay.Text

/-- Six bits are fixed: one digit tells the version, and the first of the fourth group the variant. -/
def identifierForm : List Char := "xxxxxxxx-xxxx-4xxx-yxxx-xxxxxxxxxxxx".toList

/-- Fills a form with the digits of a number, the lowest first. -/
def fillForm : Nat → List Char → List Char
  | _, [] => []
  | n, 'x' :: rest => Nat.digitChar (n % 16) :: fillForm (n / 16) rest
  | n, 'y' :: rest => Nat.digitChar (8 + n % 4) :: fillForm (n / 4) rest
  | n, c :: rest => c :: fillForm n rest

def identifier (n : Nat) : String := String.ofList (fillForm n identifierForm)

end BlockPlay.Text

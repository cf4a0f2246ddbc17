import BlockPlay.Decimal.Style
import BlockPlay.Decimal.Numeral
import BlockPlay.Text.Blank

/-!
Literal values in the fields of a block, and what each of them can be read as.
-/
namespace BlockPlay

inductive FieldValue where
  | number (value : Float)
  | text (value : String)
  | bool (value : Bool)
  deriving DecidableEq, Repr, Inhabited

namespace FieldValue

def asNumber? : FieldValue → Option Float
  | number x => if x.isFinite then some x else none
  | text s => Decimal.readNumber? (Text.trim s.toList)
  | bool _ => none

/-- Text as it stands; a number is written out. -/
def asText? : FieldValue → Option String
  | text s => some s
  | number x => some (Decimal.plain.render x)
  | bool _ => none

/-- A flag, or a word for one in any mixture of capitals; the positions of a pen count. -/
def asBool? : FieldValue → Option Bool
  | bool b => some b
  | text s =>
    let word := String.ofList ((Text.trim s.toList).map Char.toLower)
    if word = "true" || word = "down" then some true
    else if word = "false" || word = "up" then some false
    else none
  | number _ => none

theorem isFinite_of_asNumber? {v : FieldValue} {x : Float} (h : v.asNumber? = some x) :
    x.isFinite := by
  cases v with
  | number y =>
    simp only [asNumber?] at h
    split at h <;> simp_all
  | text s =>
    simp only [asNumber?, Decimal.readNumber?, Option.bind_eq_some_iff] at h
    obtain ⟨n, _, finite⟩ := h
    split at finite <;> simp_all
  | bool b => simp [asNumber?] at h

end FieldValue

end BlockPlay

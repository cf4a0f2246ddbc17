import BlockPlay.Decimal.Style
import BlockPlay.Text.Quoted

/-!
Why a level cannot be played.
-/
namespace BlockPlay

inductive LevelFault where
  | emptyMap
  | raggedRow (row cells expected : Nat)
  | secondStart
  | unknownCell (cell : Char) (x y : Nat)
  | noStart
  | mazeWithoutGoal
  | farmWithoutGoal
  | tooFewItems (wanted found : Nat)
  | noPlot
  | badCanvas (width height : Float)
  | startOffCanvas (x y : Float)
  | badHeading
  | badStepLength
  deriving DecidableEq, Repr

namespace LevelFault

def reason : LevelFault → String
  | emptyMap => "the map is empty"
  | raggedRow row cells expected => s!"row {row} has {cells} cells, expected {expected}"
  | secondStart => "the map has more than one start"
  | unknownCell cell x y => s!"unknown cell {Text.quotedChar cell} at ({x}, {y})"
  | noStart => "the map has no start"
  | mazeWithoutGoal => "the maze has no goal"
  | farmWithoutGoal => "the farm has no goal"
  | tooFewItems wanted found => s!"the goal asks for {wanted} items but the map has {found}"
  | noPlot => "the goal asks for a harvest but the map has no plot"
  | badCanvas width height =>
    s!"canvas size {Decimal.plain.render width}x{Decimal.plain.render height} is not positive"
  | startOffCanvas x y =>
    s!"start ({Decimal.plain.render x}, {Decimal.plain.render y}) is off the canvas"
  | badHeading => "heading is not a number"
  | badStepLength => "step length must be positive"

def message (f : LevelFault) : String := "Invalid level: " ++ f.reason

end LevelFault

end BlockPlay

import BlockPlay.Decimal.Style
import BlockPlay.Level.Fault

/-!
Canvases to draw on. Coordinates that differ by less than a millionth are taken for the same.
-/
namespace BlockPlay

/-- A place on a canvas; heights are counted upwards. -/
structure Point where
  x : Float
  y : Float
  deriving DecidableEq, Repr, Inhabited

namespace Point

def epsilon : Float := 0.000001

def origin : Point := ⟨0, 0⟩

def near (p q : Point) : Bool :=
  (p.x - q.x).abs < epsilon && (p.y - q.y).abs < epsilon

/-- The nearest whole number of millionths. -/
def snap (v : Float) : Float := Decimal.roundFloat (v * 1000000) / 1000000

def snapped (p : Point) : Point := ⟨snap p.x, snap p.y⟩

def describe (p : Point) : String := s!"({Decimal.plain.render p.x}, {Decimal.plain.render p.y})"

end Point

structure Line where
  source : Point
  target : Point
  deriving DecidableEq, Repr, Inhabited

namespace Line

/-- Whether a line has the same ends, in whichever order. -/
def agrees (l : Line) (p q : Point) : Bool :=
  (l.source.near p && l.target.near q) || (l.source.near q && l.target.near p)

end Line

/-- A canvas, where the pen starts on it, how long its steps are, and the lines to be drawn. -/
structure Canvas where
  width : Float
  height : Float
  start : Point
  heading : Float
  stepLength : Float
  target : List Line
  deriving DecidableEq, Repr

namespace Canvas

def usualHeading : Float := 90

def usualStepLength : Float := 1

def new (width height : Float) : Except LevelFault Canvas :=
  if width.isFinite && height.isFinite && 0 < width && 0 < height then
    .ok ⟨width, height, ⟨width / 2, height / 2⟩, usualHeading, usualStepLength, []⟩
  else .error (.badCanvas width height)

def contains (c : Canvas) (p : Point) : Bool :=
  -Point.epsilon ≤ p.x && p.x ≤ c.width + Point.epsilon && -Point.epsilon ≤ p.y
    && p.y ≤ c.height + Point.epsilon

def withStart (c : Canvas) (start : Point) (heading : Float) : Except LevelFault Canvas :=
  if !c.contains start then .error (.startOffCanvas start.x start.y)
  else if !heading.isFinite then .error .badHeading
  else .ok { c with start := start, heading := heading }

def withStepLength (c : Canvas) (length : Float) : Except LevelFault Canvas :=
  if length.isFinite && 0 < length then .ok { c with stepLength := length }
  else .error .badStepLength

def withTarget (c : Canvas) (target : List Line) : Canvas := { c with target := target }

end Canvas

end BlockPlay

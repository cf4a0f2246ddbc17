import BlockPlay.Canvas.Basic
import BlockPlay.Run.Game
import BlockPlay.Run.Pace

/-!
Drawing on a canvas. A move draws a stroke while the pen is down; leaving the canvas loses, and the
picture is complete when each line of the target is some stroke.
-/
namespace BlockPlay

structure Stroke where
  source : Point
  target : Point
  color : String
  width : Float
  deriving DecidableEq, Repr

/-- The pen and all that it has drawn, the latest stroke first. Headings are counter-clockwise from the
right. -/
structure Drawing where
  position : Point
  heading : Float
  penDown : Bool
  color : String
  width : Float
  strokes : List Stroke
  deriving DecidableEq, Repr

namespace Drawing

def blank : Drawing := ⟨.origin, Canvas.usualHeading, true, "#000000", 1, []⟩

def describe (d : Drawing) : String :=
  s!"at {d.position.describe} heading {Decimal.plain.render d.heading} with {d.strokes.length} "
    ++ "segments drawn"

def inOrder (d : Drawing) : List Stroke := d.strokes.reverse

def hasDrawn (d : Drawing) (l : Line) : Bool := d.strokes.any fun s => l.agrees s.source s.target

end Drawing

namespace Canvas

def initial (c : Canvas) : Drawing := { Drawing.blank with position := c.start, heading := c.heading }

/-- Without a target no picture is complete. -/
def isComplete (c : Canvas) (d : Drawing) : Bool :=
  !c.target.isEmpty && c.target.all d.hasDrawn

def fullTurn : Nat := 360

def radians (degrees : Float) : Float := degrees * (3.141592653589793 / 180)

def ahead (c : Canvas) (d : Drawing) (steps : Int32) : Point :=
  let distance := Float.ofInt steps.toInt * c.stepLength
  let angle := radians d.heading
  Point.snapped ⟨d.position.x + distance * angle.cos, d.position.y + distance * angle.sin⟩

def draw (d : Drawing) (steps : Int32) (target : Point) : Drawing :=
  let stroke : Stroke := ⟨d.position, target, d.color, d.width⟩
  { d with
    position := target
    strokes := if d.penDown && steps != 0 then stroke :: d.strokes else d.strokes }

def turned (heading : Float) (direction : Direction) (degrees : Float) : Float :=
  Decimal.remainderFloat (heading + Float.ofInt direction.sign * degrees) fullTurn

def settle (c : Canvas) (millis : Nat) (d : Drawing) : Answer Drawing Outcome :=
  ⟨.ok (if c.isComplete d then .won "the picture is complete" else .ongoing), d, millis⟩

def noWidth (width : Float) : Fault := .refused s!"invalid pen width {Decimal.plain.render width}"

def apply (c : Canvas) (pace : Pace) (op : Op) (d : Drawing) : Answer Drawing Outcome :=
  match op with
  | .leaf _ .start => ⟨.ok .ongoing, d, 0⟩
  | .leaf _ (.move steps) =>
    let target := c.ahead d steps
    if c.contains target then c.settle pace.step (draw d steps target)
    else ⟨.ok (.lost s!"left the canvas at {target.describe}"), d, pace.step⟩
  | .leaf _ (.turn direction degrees) =>
    c.settle pace.step { d with heading := turned d.heading direction degrees }
  | .leaf _ (.wait millis) => c.settle (pace.hold millis.toNat) d
  | .leaf _ (.pen down) => c.settle 0 { d with penDown := down }
  | .leaf _ (.color color) => c.settle 0 { d with color := color }
  | .leaf _ (.width width) =>
    if width.isFinite && 0 < width then c.settle 0 { d with width := width }
    else ⟨.error (noWidth width), d, 0⟩
  | op => ⟨.error (Fault.unsupported op), d, 0⟩

def game (c : Canvas) (pace : Pace) : Game Drawing where
  reset _ := ⟨.ok (), c.initial, 0⟩
  apply := c.apply pace

end Canvas

end BlockPlay

import BlockPlay.Grid.Heading
import BlockPlay.Level.Fault

/-!
Maps of cells: walls, floor, one start, and cells that a game adds. Everything outside the map is
wall.
-/
namespace BlockPlay

namespace Cell

def wall : Char := '#'
def floor : Char := '.'
def start : Char := 'S'

end Cell

structure Grid where
  rows : List (List Char)
  start : Position
  deriving DecidableEq, Repr, Inhabited

namespace Grid

def width (g : Grid) : Nat := (g.rows.head?.map List.length).getD 0

def height (g : Grid) : Nat := g.rows.length

def place (x y : Nat) : Position := ⟨Int32.ofNat x, Int32.ofNat y⟩

/-- Checks the cells of a row from a column on, and notes the start. -/
def scanRow (extra : List Char) (y : Nat) : (x : Nat) → Option Position → List Char →
    Except LevelFault (Option Position)
  | _, start, [] => .ok start
  | x, start, c :: rest =>
    if c = Cell.wall ∨ c = Cell.floor then scanRow extra y (x + 1) start rest
    else if c = Cell.start then
      match start with
      | none => scanRow extra y (x + 1) (some (place x y)) rest
      | some _ => .error .secondStart
    else if c ∈ extra then scanRow extra y (x + 1) start rest
    else .error (.unknownCell c x y)

def scan (extra : List Char) : (y : Nat) → Option Position → List (List Char) →
    Except LevelFault (Option Position)
  | _, start, [] => .ok start
  | y, start, row :: rest =>
    match scanRow extra y 0 start row with
    | .ok start => scan extra (y + 1) start rest
    | .error f => .error f

def ragged? (width : Nat) (rows : List (List Char)) : Option (Nat × List Char) :=
  (rows.zipIdx.find? fun (row, _) => row.length != width).map fun (row, y) => (y, row)

/-- Reads a map; `extra` are the cells that the game adds. -/
def parse (rows : List (List Char)) (extra : List Char) : Except LevelFault Grid :=
  let width := (rows.head?.map List.length).getD 0
  if width = 0 then .error .emptyMap
  else
    match ragged? width rows with
    | some (y, row) => .error (.raggedRow y row.length width)
    | none =>
      match scan extra 0 none rows with
      | .error f => .error f
      | .ok none => .error .noStart
      | .ok (some start) => .ok ⟨rows, start⟩

def get? (g : Grid) (p : Position) : Option Char :=
  match p.x.toInt, p.y.toInt with
  | .ofNat x, .ofNat y => g.rows[y]?.bind fun row => row[x]?
  | _, _ => none

def isWall (g : Grid) (p : Position) : Bool := (g.get? p).all (· == Cell.wall)

def findInRow (cell : Char) (y : Nat) (row : List Char) : List Position :=
  (row.zipIdx.filter fun (c, _) => c == cell).map fun (_, x) => place x y

def find (g : Grid) (cell : Char) : List Position :=
  g.rows.zipIdx.flatMap fun (row, y) => findInRow cell y row

/-- Walks up to so many cells; stops in front of a wall and tells which. -/
def walkOn (g : Grid) (h : Heading) (forward : Bool) : Nat → Position → Position × Option Position
  | 0, p => (p, none)
  | n + 1, p =>
    let next := p.step h forward
    if g.isWall next then (p, some next) else walkOn g h forward n next

/-- Walks ahead, or backwards if the number of steps is negative. -/
def walk (g : Grid) (p : Position) (h : Heading) (steps : Int32) : Position × Option Position :=
  g.walkOn h (0 ≤ steps) steps.toInt.natAbs p

end Grid

end BlockPlay

import BlockPlay.Canvas.Basic
import BlockPlay.Grid.Farm
import BlockPlay.Grid.Maze
import BlockPlay.Json.Reading

/-!
Levels as JSON documents. A level is checked as soon as its record has been read.
-/
namespace BlockPlay

open Json (Tree Context Problem)

def Json.Problem.ofCheck {α : Type} : Except LevelFault α → Except Problem α
  | .ok a => .ok a
  | .error f => .error (.rejected f.message)

def LevelFault.problemMessage (p : Problem) : String := "Parse error: " ++ p.message

namespace Heading

def read (c : Context) (t : Tree) : Except Problem Heading :=
  (t.readVariant c (all.map name)).map fun text => (all.find? (·.name == text)).getD .north

end Heading

namespace Grid

def readRows (c : Context) (t : Tree) : Except Problem (List (List Char)) :=
  t.readList c (Tree.anySize fun _ row => row.readString.map String.toList)

end Grid

namespace Maze

structure Draft where
  rows : List (List Char)
  facing : Heading

def read (c : Context) (t : Tree) : Except Problem Maze := do
  let draft ← t.readRecord c "struct MazeFile" (⟨[], .north⟩ : Draft)
    [Tree.field "rows" true Grid.readRows fun rows d => { d with rows := rows },
      Tree.field "facing" false Heading.read fun h d => { d with facing := h }]
  Problem.ofCheck (new draft.rows draft.facing)

end Maze

namespace Farm

def Goal.read (c : Context) (t : Tree) : Except Problem Goal :=
  t.readRecord c "struct FarmGoal" Goal.nothing
    [Tree.field "collect" false (fun _ => Tree.readUInt32) fun n g => { g with collect := n },
      Tree.field "harvest" false (fun _ => Tree.readUInt32) fun n g => { g with harvest := n }]

structure Draft where
  rows : List (List Char)
  facing : Heading
  goal : Goal

def read (c : Context) (t : Tree) : Except Problem Farm := do
  let draft ← t.readRecord c "struct FarmFile" (⟨[], .north, .nothing⟩ : Draft)
    [Tree.field "rows" true Grid.readRows fun rows d => { d with rows := rows },
      Tree.field "facing" false Heading.read fun h d => { d with facing := h },
      Tree.field "goal" true Goal.read fun g d => { d with goal := g }]
  Problem.ofCheck (new draft.rows draft.facing draft.goal)

end Farm

namespace Point

def read (c : Context) (t : Tree) : Except Problem Point :=
  t.readRecord c "struct Point" origin
    [Tree.field "x" true (fun _ => Tree.readFloat) fun x p => { p with x := x },
      Tree.field "y" true (fun _ => Tree.readFloat) fun y p => { p with y := y }]

def read? (c : Context) (t : Tree) : Except Problem (Option Point) :=
  if t.isNull then .ok none else (read c t).map some

end Point

namespace Line

def read (c : Context) (t : Tree) : Except Problem Line :=
  t.readRecord c "struct Line" ⟨.origin, .origin⟩
    [Tree.field "from" true Point.read fun p l => { l with source := p },
      Tree.field "to" true Point.read fun p l => { l with target := p }]

end Line

namespace Canvas

structure Draft where
  width : Float
  height : Float
  start : Option Point
  heading : Float
  stepLength : Float
  target : List Line

/-- The canvas of a draft; the start is in the middle if it is left open. -/
def Draft.check (d : Draft) : Except LevelFault Canvas := do
  let c ← new d.width d.height
  let c ← c.withStart (d.start.getD c.start) d.heading
  let c ← c.withStepLength d.stepLength
  return c.withTarget d.target

def readLines (c : Context) (t : Tree) : Except Problem (List Line) :=
  t.readList c (Tree.anySize Line.read)

def read (c : Context) (t : Tree) : Except Problem Canvas := do
  let draft ← t.readRecord c "struct ArtistFile"
    (⟨0, 0, none, usualHeading, usualStepLength, []⟩ : Draft)
    [Tree.field "width" true (fun _ => Tree.readFloat) fun x d => { d with width := x },
      Tree.field "height" true (fun _ => Tree.readFloat) fun x d => { d with height := x },
      Tree.field "start" false Point.read? fun p d => { d with start := p },
      Tree.field "heading" false (fun _ => Tree.readFloat) fun x d => { d with heading := x },
      Tree.field "step_length" false (fun _ => Tree.readFloat) fun x d => { d with stepLength := x },
      Tree.field "target" false readLines fun lines d => { d with target := lines }]
  Problem.ofCheck draft.check

end Canvas

end BlockPlay

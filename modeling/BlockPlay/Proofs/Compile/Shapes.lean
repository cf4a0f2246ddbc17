import BlockPlay.Compile.Preset
import BlockPlay.Compile.Basic
import BlockPlay.Graph.Arena
import BlockPlay.Proofs.Decimal.Scientific

/-!
Scripts built block by block in an arena, and compiled. Whatever the order in which blocks, links and inputs
are added, a script ends up as a row of blocks in pre-order behind those that were there before; the
compiler reads the script off that row again.
-/
namespace BlockPlay

/-- A block that holds no others. -/
inductive Piece where
  | forward (steps : Int32)
  | backward (steps : Int32) (regular : Int32.minValue < steps)
  | left
  | collect

inductive Shape where
  | piece (id : BlockId) (p : Piece)
  | loop (id : BlockId) (count : UInt32) (body : List Shape)

namespace Piece

def kind : Piece → BlockClass
  | forward _ => .move
  | backward .. => .back
  | left => .turnLeft
  | collect => .collect

def steps? : Piece → Option Int32
  | forward n => some n
  | backward n _ => some n
  | left | collect => none

def action : Piece → Action
  | forward n => .move n
  | backward n _ => .move (Int32.ofInt (-|n.toInt|))
  | left => .turn .left 90
  | collect => .collect

end Piece

namespace Shape

@[elab_as_elim]
theorem forest {motive : List Shape → Prop} (nil : motive [])
    (piece : ∀ id p rest, motive rest → motive (.piece id p :: rest))
    (loop : ∀ id count body rest, motive body → motive rest → motive (.loop id count body :: rest)) :
    ∀ shapes, motive shapes
  | [] => nil
  | .piece id p :: rest => piece id p rest (forest nil piece loop rest)
  | .loop id count body :: rest =>
    loop id count body rest (forest nil piece loop body) (forest nil piece loop rest)
termination_by shapes => sizeOf shapes

mutual

def size : Shape → Nat
  | piece .. => 1
  | loop _ _ body => 1 + sizes body

def sizes : List Shape → Nat
  | [] => 0
  | s :: rest => s.size + sizes rest

end

mutual

def nesting : Shape → Nat
  | piece .. => 0
  | loop _ _ body => 1 + nestings body

def nestings : List Shape → Nat
  | [] => 0
  | s :: rest => max s.nesting (nestings rest)

end

mutual

/-- The number of shapes that are no loops. -/
def pieces : Shape → Nat
  | piece .. => 1
  | loop _ _ body => allPieces body

def allPieces : List Shape → Nat
  | [] => 0
  | s :: rest => s.pieces + allPieces rest

end

mutual

/-- What a shape means. -/
def op : Shape → Op
  | piece id p => .leaf id p.action
  | loop id count body => .loop id count (ops body)

def ops : List Shape → List Op
  | [] => []
  | s :: rest => s.op :: ops rest

end

section Building

variable (tag : BlockClass → String)

mutual

/-- Adds the blocks of a shape: its own one, then those in its body, which is plugged in last. -/
def add (a : Arena) : Shape → BlockRef × Arena
  | piece id p =>
    let (r, a) := a.addBlock id (tag p.kind)
    match p.steps? with
    | none => (r, a)
    | some n => (r, a.setField r "STEPS" (.number (Float.ofInt n.toInt)))
  | loop id count body =>
    let (r, a) := a.addBlock id (tag .loop)
    let (refs, a) := addAll (a.setField r "TIMES" (.number (Float.ofNat count.toNat))) body
    let a := a.chain refs
    match refs.head? with
    | none => (r, a)
    | some first => (r, a.setInput r "DO" first)

def addAll (a : Arena) : List Shape → List BlockRef × Arena
  | [] => ([], a)
  | s :: rest =>
    let (r, a) := add a s
    let (refs, a) := addAll a rest
    (r :: refs, a)

end

/-- Adds shapes, one below the other. -/
def build (a : Arena) (shapes : List Shape) : Option BlockRef × Arena :=
  let (refs, a) := addAll tag a shapes
  (refs.head?, a.chain refs)

/-- An arena with shapes below a start block. -/
def script (id : BlockId) (shapes : List Shape) : Arena :=
  let (start, a) := Arena.empty.addTop id (tag .start)
  match build tag a shapes with
  | (none, a) => a
  | (some first, a) => a.setNext start first

/-- Where a row of shapes begins. -/
def place (start : Nat) : List Shape → Option BlockRef
  | [] => none
  | _ :: _ => some ⟨start⟩

mutual

/-- The blocks of a shape at a place of the arena, with the link of its own block. -/
def blocks (start : Nat) (next : Option BlockRef) : Shape → List Arena.Block
  | piece id p =>
    [⟨id, tag p.kind, next, [], p.steps?.toList.map fun n => ("STEPS", .number (Float.ofInt n.toInt))⟩]
  | loop id count body =>
    ⟨id, tag .loop, next, (place (start + 1) body).toList.map fun first => ("DO", first),
      [("TIMES", .number (Float.ofNat count.toNat))]⟩ :: row (start + 1) body

/-- The blocks of shapes one below the other, from a place of the arena on. -/
def row (start : Nat) : List Shape → List Arena.Block
  | [] => []
  | s :: rest => s.blocks start (place (start + s.size) rest) ++ row (start + s.size) rest

end

/-- The blocks of shapes side by side. -/
def heap (start : Nat) : List Shape → List Arena.Block
  | [] => []
  | s :: rest => s.blocks tag start none ++ heap (start + s.size) rest

/-- The places of the shapes themselves. -/
def roots (start : Nat) : List Shape → List BlockRef
  | [] => []
  | s :: rest => ⟨start⟩ :: roots (start + s.size) rest

end Building

end Shape

namespace Arena

def grow (a : Arena) (more : List Block) : Arena := { a with blocks := a.blocks ++ more.toArray }

@[simp] theorem size_grow (a : Arena) (more : List Block) : (a.grow more).size = a.size + more.length := by
  simp [grow, size]

theorem grow_grow (a : Arena) (more last : List Block) : (a.grow more).grow last = a.grow (more ++ last) := by
  simp [grow]

theorem grow_nil (a : Arena) : a.grow [] = a := by
  simp [grow]

theorem addBlock_eq (a : Arena) (id : BlockId) (kind : String) :
    a.addBlock id kind = (⟨a.size⟩, a.grow [⟨id, kind, none, [], []⟩]) := by
  simp [addBlock, grow]

/-- A change to the first of the added blocks. -/
theorem modify_grow (a : Arena) (b : Block) (more : List Block) (f : Block → Block) :
    (a.grow (b :: more)).modify ⟨a.size⟩ f = a.grow (f b :: more) := by
  have changed : (a.blocks ++ (b :: more).toArray).modify a.blocks.size f =
      a.blocks ++ (f b :: more).toArray := by
    apply Array.toList_inj.mp
    rw [Array.toList_modify, List.modify_eq_take_cons_drop (by simp)]
    simp only [Array.toList_append, ← Array.length_toList, List.drop_length_add_append, List.take_left]
    simp
  simp only [modify, grow, size, changed]

end Arena

namespace Shape

variable (tag : BlockClass → String)

theorem length_row (start : Nat) (shapes : List Shape) : (row tag start shapes).length = sizes shapes := by
  induction shapes using forest generalizing start with
  | nil => rfl
  | piece id p rest ih =>
    simp only [row, blocks, List.length_append, List.length_cons, List.length_nil, ih, sizes, size]
  | loop id count body rest inner ih =>
    simp only [row, blocks, List.length_append, List.length_cons, inner, ih, sizes, size]
    omega

theorem length_blocks (start : Nat) (next : Option BlockRef) (s : Shape) :
    (s.blocks tag start next).length = s.size := by
  cases s with
  | piece id p => rfl
  | loop id count body => simp [blocks, size, length_row, Nat.add_comm]

theorem size_pos (s : Shape) : 0 < s.size := by
  cases s with
  | piece id p => exact Nat.one_pos
  | loop id count body => exact Nat.add_pos_left Nat.one_pos _

theorem head?_roots (start : Nat) (shapes : List Shape) : (roots start shapes).head? = place start shapes := by
  cases shapes <;> rfl

/-- A link changes the block of the shape itself and leaves those in its body alone. -/
theorem setNext_grow (a : Arena) (s : Shape) (more : List Arena.Block) {target : BlockRef}
    (inside : target.index < a.size + s.size + more.length) :
    (a.grow (s.blocks tag a.size none ++ more)).setNext ⟨a.size⟩ target =
      a.grow (s.blocks tag a.size (some target) ++ more) := by
  have present : (a.grow (s.blocks tag a.size none ++ more)).contains target := by
    simp only [Arena.contains, Arena.size_grow, List.length_append, length_blocks, decide_eq_true_eq]
    omega
  rw [Arena.setNext, if_pos present]
  cases s with
  | piece id p => exact Arena.modify_grow ..
  | loop id count body => exact Arena.modify_grow ..

theorem chain_roots (a : Arena) (shapes : List Shape) :
    (a.grow (heap tag a.size shapes)).chain (roots a.size shapes) = a.grow (row tag a.size shapes) := by
  induction shapes generalizing a with
  | nil => rfl
  | cons s rest ih =>
    cases rest with
    | nil => rfl
    | cons t rest =>
      have next : (a.grow (s.blocks tag a.size (some ⟨a.size + s.size⟩))).size = a.size + s.size := by
        rw [Arena.size_grow, length_blocks]
      have later := ih (a.grow (s.blocks tag a.size (some ⟨a.size + s.size⟩)))
      rw [next, Arena.grow_grow, Arena.grow_grow] at later
      have inside : a.size + s.size < a.size + s.size + (heap tag (a.size + s.size) (t :: rest)).length := by
        have some := t.size_pos
        simp only [heap, List.length_append, length_blocks]
        omega
      have linked := setNext_grow tag a s _ inside
      rw [row, place, ← later, ← linked]
      rfl

theorem add_piece (a : Arena) (id : BlockId) (p : Piece) :
    add tag a (.piece id p) = (⟨a.size⟩, a.grow (blocks tag a.size none (.piece id p))) := by
  rw [add, Arena.addBlock_eq]
  cases steps : p.steps? with
  | none => simp [blocks, steps]
  | some n =>
    simp only [blocks, steps, Option.toList_some, List.map_cons, List.map_nil, Arena.setField,
      Arena.modify_grow, Entries.put]

theorem addAll_eq (a : Arena) (shapes : List Shape) :
    addAll tag a shapes = (roots a.size shapes, a.grow (heap tag a.size shapes)) := by
  induction shapes using forest generalizing a with
  | nil => simp [addAll, roots, heap, Arena.grow_nil]
  | piece id p rest ih =>
    have next : (a.grow (blocks tag a.size none (.piece id p))).size = a.size + (piece id p).size := by
      rw [Arena.size_grow, length_blocks]
    simp only [addAll, add_piece, ih, next, Arena.grow_grow]
    rfl
  | loop id count body rest inner ih =>
    have alone : add tag a (.loop id count body) =
        (⟨a.size⟩, a.grow (blocks tag a.size none (.loop id count body))) := by
      have opened : (a.grow [⟨id, tag .loop, none, [], []⟩]).setField ⟨a.size⟩ "TIMES"
          (.number (Float.ofNat count.toNat)) =
          a.grow [⟨id, tag .loop, none, [], [("TIMES", .number (Float.ofNat count.toNat))]⟩] := by
        simp only [Arena.setField, Arena.modify_grow, Entries.put]
      have filled := chain_roots tag
        (a.grow [⟨id, tag .loop, none, [], [("TIMES", .number (Float.ofNat count.toNat))]⟩]) body
      rw [add, Arena.addBlock_eq]
      simp only [opened, inner, filled, head?_roots]
      simp only [Arena.size_grow, List.length_cons, List.length_nil, Nat.zero_add, Arena.grow_grow,
        List.cons_append, List.nil_append]
      cases body with
      | nil => rfl
      | cons first others =>
        have inside : a.size + 1 < a.size + 1 + (row tag (a.size + 1) (first :: others)).length := by
          have some := first.size_pos
          rw [length_row, sizes]
          omega
        simp only [place, Arena.setInput]
        rw [if_pos (by simp [Arena.contains]; omega), Arena.modify_grow]
        rfl
    have next : (a.grow (blocks tag a.size none (.loop id count body))).size =
        a.size + (loop id count body).size := by
      rw [Arena.size_grow, length_blocks]
    simp only [addAll, alone, ih, next, Arena.grow_grow]
    rfl

/-- All of a script: its row stands behind the start block. -/
theorem script_eq (id : BlockId) (shapes : List Shape) :
    script tag id shapes =
      (⟨#[], [⟨0⟩]⟩ : Arena).grow (⟨id, tag .start, place 1 shapes, [], []⟩ :: row tag 1 shapes) := by
  have started : Arena.empty.addTop id (tag .start) =
      (⟨0⟩, (⟨#[], [⟨0⟩]⟩ : Arena).grow [⟨id, tag .start, none, [], []⟩]) := rfl
  have linked := chain_roots tag ((⟨#[], [⟨0⟩]⟩ : Arena).grow [⟨id, tag .start, none, [], []⟩]) shapes
  simp only [script, started, build, addAll_eq, linked, head?_roots]
  rw [Arena.grow_grow]
  cases shapes with
  | nil => rfl
  | cons s rest =>
    have present : ((⟨#[], [⟨0⟩]⟩ : Arena).grow
        (⟨id, tag .start, none, [], []⟩ :: row tag 1 (s :: rest))).contains ⟨1⟩ := by
      have some := s.size_pos
      rw [Arena.contains, Arena.size_grow, List.length_cons, length_row, sizes, decide_eq_true_eq]
      change 1 < 0 + _
      omega
    exact (if_pos present).trans (Arena.modify_grow ⟨#[], [⟨0⟩]⟩ ..)

end Shape

namespace Compile

variable {Node : Type} {g : BlockGraph Node} {config : Config} {left depth rest : Nat} {node : Node}
  {ops : List Op} {cut : Bool}

theorem chain_leaf {c : BlockClass} {action : Action} {le : rest ≤ left}
    (known : config.classify (g.kind node) = some c) (does : g.action? node c = some action)
    (below : chain g config left depth (g.next? node) = ⟨.ok ops, rest, cut, le⟩) :
    chain g config (left + 1) depth (some node) =
      ⟨.ok (.leaf (g.id node) action :: ops), rest, cut, Nat.le_succ_of_le le⟩ := by
  rw [chain]
  simp only [known, does, below]
  rfl

theorem chain_loop {inside : Nat} {body : List Op} {clipped : Bool} {few : inside ≤ left} {le : rest ≤ inside}
    (known : config.classify (g.kind node) = some .loop) (shallow : depth + 1 ≤ config.maxDepth)
    (inner : chain g config left (depth + 1) (g.body? node) = ⟨.ok body, inside, clipped, few⟩)
    (below : chain g config inside depth (g.next? node) = ⟨.ok ops, rest, cut, le⟩) :
    chain g config (left + 1) depth (some node) =
      ⟨.ok (.loop (g.id node) (g.count node) body :: ops), rest, clipped || cut,
        Nat.le_succ_of_le (Nat.le_trans le few)⟩ := by
  have ended := congrArg Walk.ops inner
  have spent := congrArg Walk.left inner
  have cuts := congrArg Walk.truncated inner
  rw [chain]
  simp only [known, BlockGraph.action?, if_neg (Nat.not_lt.mpr shallow)]
  rw [ended]
  -- The budget of the chain below is what the body has left.
  simp only [Walk.mk.injEq, cuts]
  rw [spent, below]
  exact ⟨rfl, rfl, rfl⟩

end Compile

namespace Argument

variable {Node : Type} {g : BlockGraph Node} {node : Node}

theorem read_of_field (a : Argument) {name : String} {x : Float} (first : a.names.head? = some name)
    (field : g.field? node name = some (.number x)) (finite : x.isFinite) : a.read g node = x := by
  obtain ⟨_ | ⟨same, others⟩, default⟩ := a
  · cases first
  · cases first
    have reads : FieldValue.asNumber? (.number x) = some x := if_pos finite
    simp only [read, BlockGraph.number?, BlockGraph.resolve?, BlockGraph.direct?, List.findSome?_cons, field,
      Option.bind_some, reads, Option.some_or, Option.getD_some]

theorem read_default (a : Argument) (fields : ∀ name, g.field? node name = none)
    (inputs : ∀ name, g.input? node name = none) : a.read g node = a.default := by
  have nothing : a.names.findSome? (fun _ => (none : Option Float)) = none :=
    List.findSome?_eq_none_iff.mpr fun _ _ => rfl
  simp only [read, BlockGraph.number?, BlockGraph.resolve?, BlockGraph.direct?, fields, inputs,
    Option.bind_none, nothing, Option.none_or, Option.getD_none]

end Argument

open Decimal (value?)

theorem value?_int32 (n : Int32) : value? (Float.ofInt n.toInt) = some ((n.toInt : ℤ) : ℚ) := by
  have low := n.le_toInt
  have high := n.toInt_lt
  have bound : (2 : ℕ) ^ 31 < Decimal.pow2 53 := by decide
  exact Decimal.value?_ofInt (by omega)

theorem stepsOf_ofInt (n : Int32) : stepsOf (Float.ofInt n.toInt) = n := by
  have within : max Int32.minValue.toInt (min Int32.maxValue.toInt n.toInt) = n.toInt := by
    have low := n.le_toInt
    have high := n.toInt_lt
    rw [Int32.toInt_minValue, Int32.toInt_maxValue]
    omega
  rw [stepsOf, Decimal.clampWhole_truncate (value?_int32 n), within, Int32.ofInt_toInt]

theorem value?_uint32 (n : UInt32) : value? (Float.ofNat n.toNat) = some ((n.toNat : ℤ) : ℚ) := by
  have bound : (2 : ℕ) ^ 32 < Decimal.pow2 53 := by decide
  rw [Decimal.value?_ofNat (n.toNat_lt.trans bound)]
  norm_cast

theorem countOf_ofNat (n : UInt32) : countOf (Float.ofNat n.toNat) = n := by
  have within : max 0 (min ((UInt32.size : ℤ) - 1) n.toNat) = n.toNat := by
    have high := n.toNat_lt
    have size : UInt32.size = 2 ^ 32 := rfl
    omega
  rw [countOf, Decimal.clampWhole_truncate (value?_uint32 n), within, Int.toNat_natCast, UInt32.ofNat_toNat]

theorem neg_saturatingAbs {n : Int32} (regular : Int32.minValue < n) :
    -saturatingAbs n = Int32.ofInt (-|n.toInt|) := by
  have other : n ≠ Int32.minValue := fun same => Int32.lt_irrefl (same ▸ regular)
  have sign : n < 0 ↔ n.toInt < 0 := Int32.lt_iff_toInt_lt
  rw [saturatingAbs, if_neg other]
  by_cases negative : n < 0
  · rw [if_pos negative, Int32.neg_neg, abs_of_neg (sign.mp negative), neg_neg, Int32.ofInt_toInt]
  · rw [if_neg negative, abs_of_nonneg (not_lt.mp (mt sign.mpr negative)), Int32.ofInt_neg, Int32.ofInt_toInt]

namespace Shape

variable (tag : BlockClass → String)

theorem action?_piece (a : Arena) (id : BlockId) (p : Piece) (next : Option BlockRef) :
    a.graph.action? ⟨id, tag p.kind, next, [],
      p.steps?.toList.map fun n => ("STEPS", .number (Float.ofInt n.toInt))⟩ p.kind = some p.action := by
  have steps (n : Int32) (kind : String) : Argument.steps.read a.graph
      ⟨id, kind, next, [], [("STEPS", .number (Float.ofInt n.toInt))]⟩ = Float.ofInt n.toInt :=
    Argument.steps.read_of_field rfl rfl (Decimal.isFinite_of_value? (value?_int32 n))
  cases p with
  | forward n =>
    simp only [BlockGraph.action?, Piece.kind, Piece.steps?, Option.toList_some, List.map_cons, List.map_nil,
      steps, stepsOf_ofInt, Piece.action]
  | backward n regular =>
    simp only [BlockGraph.action?, Piece.kind, Piece.steps?, Option.toList_some, List.map_cons, List.map_nil,
      steps, stepsOf_ofInt, neg_saturatingAbs regular, Piece.action]
  | left =>
    have degrees : Argument.degrees.read a.graph ⟨id, tag .turnLeft, next, [], []⟩ = 90 :=
      Argument.degrees.read_default (fun _ => rfl) fun _ => rfl
    exact congrArg (fun x => some (Action.turn .left x)) degrees
  | collect => rfl

theorem row_piece (a : Arena) (start : Nat) (id : BlockId) (p : Piece) (rest : List Shape) :
    ∃ b, row tag start (piece id p :: rest) = b :: row tag (start + 1) rest ∧ a.graph.id b = id ∧
      a.graph.kind b = tag p.kind ∧ a.graph.action? b p.kind = some p.action ∧
      a.graph.next? b = (place (start + 1) rest).bind a.block? :=
  ⟨_, rfl, rfl, rfl, action?_piece tag a id p _, rfl⟩

theorem row_loop (a : Arena) (start : Nat) (id : BlockId) (count : UInt32) (body rest : List Shape) :
    ∃ b, row tag start (loop id count body :: rest) =
        b :: (row tag (start + 1) body ++ row tag (start + (1 + sizes body)) rest) ∧
      a.graph.id b = id ∧ a.graph.kind b = tag .loop ∧ a.graph.count b = count ∧
      a.graph.body? b = (place (start + 1) body).bind a.block? ∧
      a.graph.next? b = (place (start + (1 + sizes body)) rest).bind a.block? := by
  refine ⟨_, rfl, rfl, rfl, ?_, ?_, rfl⟩
  · have times : Argument.times.read a.graph ⟨id, tag .loop, place (start + (1 + sizes body)) rest,
        (place (start + 1) body).toList.map fun first => ("DO", first),
        [("TIMES", .number (Float.ofNat count.toNat))]⟩ = Float.ofNat count.toNat :=
      Argument.times.read_of_field rfl rfl (Decimal.isFinite_of_value? (value?_uint32 count))
    exact (congrArg countOf times).trans (countOf_ofNat count)
  · cases body with
    | nil => rfl
    | cons s others =>
      change Option.or (a.block? ⟨start + 1⟩) none = a.block? ⟨start + 1⟩
      rw [Option.or_none]

variable {tag : BlockClass → String} {config : Config}

/-- The first block of what is left of a row. -/
theorem block?_of_stands {a : Arena} {start : Nat} {before later : List Arena.Block} {b : Arena.Block}
    (here : before.length = start) (stands : a.blocks.toList = before ++ b :: later) :
    a.block? ⟨start⟩ = some b := by
  rw [Arena.block?, ← Array.getElem?_toList, stands, ← here, List.getElem?_append_right (Nat.le_refl _),
    Nat.sub_self]
  rfl

/-- The classes of the blocks of a script. -/
def classes : List BlockClass := [.start, .move, .back, .turnLeft, .collect, .loop]

open Compile in
/-- A row that stands somewhere in an arena is compiled to what its shapes mean. -/
theorem chain_row {a : Arena} (known : ∀ c ∈ classes, config.classify (tag c) = some c) (shapes : List Shape)
    {start : Nat} {before after : List Arena.Block} {budget depth : Nat} (here : before.length = start)
    (stands : a.blocks.toList = before ++ (row tag start shapes ++ after))
    (enough : sizes shapes ≤ budget) (shallow : depth + nestings shapes ≤ config.maxDepth) :
    chain a.graph config budget depth ((place start shapes).bind a.block?) =
      ⟨.ok (ops shapes), budget - sizes shapes, false, Nat.sub_le ..⟩ := by
  induction shapes using forest generalizing start before after budget depth with
  | nil =>
    simp only [place, Option.bind_none]
    rw [chain]
    rfl
  | piece id p rest ih =>
    obtain ⟨b, first, rfl, kind, acts, next⟩ := row_piece tag a start id p rest
    rw [first] at stands
    have block : a.block? ⟨start⟩ = some b := block?_of_stands here stands
    have class_known : config.classify (a.graph.kind b) = some p.kind := by
      rw [kind]
      exact known _ (by cases p <;> simp [classes, Piece.kind])
    simp only [sizes, size] at enough
    simp only [nestings, nesting] at shallow
    obtain ⟨left, rfl⟩ : ∃ left, budget = left + 1 := ⟨budget - 1, by omega⟩
    have below : chain a.graph config left depth ((place (start + 1) rest).bind a.block?) = _ :=
      ih (by rw [List.length_append, here]; rfl) (stands.trans (List.append_cons ..)) (by omega) (by omega)
    rw [← next] at below
    have found : (place start (piece (a.graph.id b) p :: rest)).bind a.block? = some b := block
    rw [found, chain_leaf class_known acts below, Walk.mk.injEq]
    refine ⟨rfl, ?_, rfl⟩
    simp only [sizes, size]
    omega
  | loop id count body rest inner ih =>
    obtain ⟨b, first, rfl, kind, rfl, holds, next⟩ := row_loop tag a start id count body rest
    rw [first, List.cons_append, List.append_assoc] at stands
    have block : a.block? ⟨start⟩ = some b := block?_of_stands here stands
    have class_known : config.classify (a.graph.kind b) = some .loop := by
      rw [kind]
      exact known _ (by simp [classes])
    simp only [sizes, size] at enough
    simp only [nestings, nesting] at shallow
    obtain ⟨left, rfl⟩ : ∃ left, budget = left + 1 := ⟨budget - 1, by omega⟩
    have behind := stands.trans (List.append_cons ..)
    have inside : chain a.graph config left (depth + 1) ((place (start + 1) body).bind a.block?) = _ :=
      inner (by rw [List.length_append, here]; rfl) behind (by omega) (by omega)
    have length : (before ++ [b] ++ row tag (start + 1) body).length = start + (1 + sizes body) := by
      rw [List.length_append, List.length_append, length_row, here, List.length_singleton, Nat.add_assoc]
    have below : chain a.graph config (left - sizes body) depth
        ((place (start + (1 + sizes body)) rest).bind a.block?) = _ :=
      ih length (behind.trans (List.append_assoc ..).symm) (by omega) (by omega)
    rw [← holds] at inside
    rw [← next] at below
    have found : (place start (loop (a.graph.id b) (a.graph.count b) body :: rest)).bind a.block? = some b :=
      block
    rw [found, chain_loop class_known (by omega) inside below, Walk.mk.injEq]
    refine ⟨rfl, ?_, rfl⟩
    simp only [sizes, size]
    omega

theorem leafCounts_ops (shapes : List Shape) : Op.leafCounts (ops shapes) = allPieces shapes := by
  induction shapes using forest with
  | nil => rfl
  | piece id p rest ih => simp only [ops, op, Op.leafCounts, Op.leafCount, allPieces, pieces, ih]
  | loop id count body rest inner ih =>
    simp only [ops, op, Op.leafCounts, Op.leafCount, allPieces, pieces, inner, ih]

/-- A script compiles to its start and what its shapes mean, with their own ids, and nothing is cut off, if
its blocks are within the budget and its loops are not nested too deep. -/
theorem compile_script (compiler : Compiler) (tag : BlockClass → String) (id : BlockId) (shapes : List Shape)
    (known : ∀ c ∈ classes, compiler.config.classify (tag c) = some c)
    (enough : sizes shapes + 1 ≤ compiler.config.maxBlocks)
    (shallow : nestings shapes ≤ compiler.config.maxDepth) :
    let p : Program := ⟨.leaf id .start :: ops shapes⟩
    (compiler.compile (script tag id shapes).graph).1 = .ok p ∧
      (compiler.compile (script tag id shapes).graph).2.truncated = false ∧
      p.leafCount = allPieces shapes + 1 := by
  intro p
  obtain ⟨⟨entries, budget, depth⟩, visited, cut⟩ := compiler
  change sizes shapes + 1 ≤ budget at enough
  change nestings shapes ≤ depth at shallow
  obtain ⟨left, rfl⟩ : ∃ left, budget = left + 1 := ⟨budget - 1, by omega⟩
  have stands : (script tag id shapes).blocks.toList =
      [⟨id, tag .start, place 1 shapes, [], []⟩] ++ (row tag 1 shapes ++ []) := by
    simp [script_eq, Arena.grow]
  have first : (script tag id shapes).block? ⟨0⟩ = some ⟨id, tag .start, place 1 shapes, [], []⟩ :=
    block?_of_stands (List.length_nil : ([] : List Arena.Block).length = 0) stands
  have links : (script tag id shapes).top = [⟨0⟩] := by
    rw [script_eq]
    rfl
  have top : (script tag id shapes).graph.top = [⟨id, tag .start, place 1 shapes, [], []⟩] := by
    simp only [Arena.graph, links, List.filterMap_cons, first, List.filterMap_nil]
  have start : Config.classify ⟨entries, left + 1, depth⟩ (tag .start) = some .start :=
    known _ (by simp [classes])
  have found : Compiler.start? ⟨entries, left + 1, depth⟩ (script tag id shapes).graph =
      some ⟨id, tag .start, place 1 shapes, [], []⟩ := by
    rw [Compiler.start?, top]
    exact List.find?_cons_of_pos (decide_eq_true start)
  have below : Compile.chain (script tag id shapes).graph ⟨entries, left + 1, depth⟩ left 0
      ((place 1 shapes).bind (script tag id shapes).block?) = _ :=
    chain_row known shapes rfl stands (Nat.le_of_succ_le_succ enough) ((Nat.zero_add _).trans_le shallow)
  have walked : Compile.chain (script tag id shapes).graph ⟨entries, left + 1, depth⟩ (left + 1) 0
      (some ⟨id, tag .start, place 1 shapes, [], []⟩) = _ :=
    Compile.chain_leaf start rfl below
  simp only [Compiler.compile, found]
  rw [walked]
  refine ⟨rfl, rfl, ?_⟩
  simp only [p, Program.leafCount, Op.leafCounts, Op.leafCount, leafCounts_ops, Nat.add_comm]

def errand : List Shape :=
  [.piece ⟨"walk"⟩ (.forward 3),
    .loop ⟨"thrice"⟩ 3 [.piece ⟨"retreat"⟩ (.backward (-2) (by decide)), .loop ⟨"never"⟩ 0 [],
      .piece ⟨"turn"⟩ .left],
    .piece ⟨"pick"⟩ .collect]

def farmTag : BlockClass → String
  | .start => "when_run"
  | .move => "move_forward"
  | .back => "move_backward"
  | .turnLeft => "turn_left"
  | .collect => "collect"
  | .loop => "controls_repeat"
  | _ => ""

theorem compile_script_errand :
    (∀ c ∈ classes, Preset.farm.classify (farmTag c) = some c) ∧ sizes errand + 1 ≤ 500 ∧
      nestings errand ≤ 32 ∧
      ((⟨Preset.farm, 7, true⟩ : Compiler).compile (script farmTag ⟨"go"⟩ errand).graph).1 =
        .ok ⟨[.leaf ⟨"go"⟩ .start, .leaf ⟨"walk"⟩ (.move 3),
          .loop ⟨"thrice"⟩ 3 [.leaf ⟨"retreat"⟩ (.move (-2)), .loop ⟨"never"⟩ 0 [],
            .leaf ⟨"turn"⟩ (.turn .left 90)],
          .leaf ⟨"pick"⟩ .collect]⟩ := by
  have known : ∀ c ∈ classes, Preset.farm.classify (farmTag c) = some c := by decide
  have enough : sizes errand + 1 ≤ 500 := by decide
  have shallow : nestings errand ≤ 32 := by decide
  obtain ⟨compiled, -⟩ := compile_script ⟨Preset.farm, 7, true⟩ farmTag ⟨"go"⟩ errand known enough shallow
  exact ⟨known, enough, shallow, compiled⟩

end Shape

end BlockPlay

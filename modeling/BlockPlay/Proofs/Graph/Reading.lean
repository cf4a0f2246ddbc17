import BlockPlay.Graph.Document
import BlockPlay.Proofs.Graph.Naming
import BlockPlay.Proofs.Json.Record

/-!
Workspaces read from a text and from a value. Blocks are records, so the reader of workspaces follows the meaning
of a tree, and finds in a text what it finds in the value of the text.
-/
namespace BlockPlay.Workspace

open Json (Value Tree Context Problem)
open Json.Tree (Slot Follows)

def readInputs (c : Context) (t : Tree) : Except Problem (Entries Connection) :=
  t.readMap c Entries.put .ok (Tree.anySize Connection.read)

def Block.slots : List (Slot Block) :=
  [⟨"type", true, fun _ => Tree.readString, Block.setKind⟩,
    ⟨"id", false, fun _ => Tree.readString, Block.setId⟩,
    ⟨"fields", false, readFields, Block.setFields⟩,
    ⟨"inputs", false, readInputs, Block.setInputs⟩,
    ⟨"next", false, Tree.readNullable Connection.read, Block.setNext⟩]

def Connection.slots : List (Slot Connection) :=
  [⟨"block", false, Tree.readNullable Block.read, Connection.setBlock⟩,
    ⟨"shadow", false, Tree.readNullable Block.read, Connection.setShadow⟩]

theorem toField_nullable {α κ : Type} {n : Nat} (name : String) (required : Bool)
    (read : Context → Tree → Except Problem κ) (set : Option κ → α → α) :
    (Slot.mk name required (Tree.readNullable read) set).toField (n := n) =
      ⟨name, required, fun c t _ a =>
        if t.isNull then .ok (set none a) else (read c t).map fun x => set (some x) a⟩ := by
  rw [Slot.toField, Tree.field]
  congr 1
  funext c t _ a
  change (if t.isNull then .ok none else (read c t).map some).map (set · a) = _
  split
  next => rfl
  next => cases read c t <;> rfl

theorem Block.read_eq (c : Context) (t : Tree) :
    Block.read c t = t.readRecord c "struct BlockJson" default (Block.slots.map Slot.toField) := by
  rw [Block.read, Block.slots]
  simp only [List.map_cons, List.map_nil, toField_nullable]
  rfl

theorem Connection.read_eq (c : Context) (t : Tree) :
    Connection.read c t = t.readRecord c "struct Connection" default (Connection.slots.map Slot.toField) := by
  rw [Connection.read, Connection.slots]
  simp only [List.map_cons, List.map_nil, toField_nullable]

theorem Block.independent_slots : Slot.Independent Block.slots := by
  refine Slot.independent_of_pairwise ?_
  simp only [Block.slots, List.pairwise_cons, List.forall_mem_cons, List.not_mem_nil, false_imp_iff, implies_true,
    List.Pairwise.nil, and_true]
  and_intros
  all_goals
    rintro _ _ ⟨_, _, _, _, _⟩
    rfl

theorem Connection.independent_slots : Slot.Independent Connection.slots := by
  refine Slot.independent_of_pairwise (List.pairwise_pair.mpr ?_)
  rintro _ _ ⟨_, _⟩
  rfl

section Follows

theorem follows_readFields (n : Nat) : Follows n readFields := Tree.follows_readValue.readMap.mono (Nat.le_succ n)

/-- The readers of blocks and of connections, which call each other on smaller trees, follow the meaning. -/
theorem follows_read (n : Nat) : Follows n Block.read ∧ Follows n Connection.read := by
  induction n with
  | zero => exact ⟨Tree.follows_zero, Tree.follows_zero⟩
  | succ n ih =>
    obtain ⟨block, connection⟩ := ih
    have inputs : Follows n readInputs := connection.readMap.mono (Nat.le_succ n)
    have ofBlock : ∀ s ∈ Block.slots, Follows n s.read := by
      simp only [Block.slots, List.forall_mem_cons]
      exact ⟨Tree.follows_readString, Tree.follows_readString, follows_readFields n, inputs,
        connection.readNullable, nofun⟩
    have ofConnection : ∀ s ∈ Connection.slots, Follows n s.read := by
      simp only [Connection.slots, List.forall_mem_cons]
      exact ⟨block.readNullable, block.readNullable, nofun⟩
    constructor
    · rw [funext₂ Block.read_eq]
      exact Tree.follows_readRecord _ _ Block.independent_slots ofBlock
    · rw [funext₂ Connection.read_eq]
      exact Tree.follows_readRecord _ _ Connection.independent_slots ofConnection

/-- A wrapper is a record of one field. -/
def wrapperSlots (inner : Context → Tree → Except Problem (List Block)) : List (Slot (Option (List Block))) :=
  [⟨"blocks", true, inner, fun blocks _ => some blocks⟩]

/-- The names that were met in a wrapper. -/
def met (blocks : Option (List Block)) : List String := blocks.toList.map fun _ => "blocks"

theorem readMembers_wrapper {c : Context} {n : Nat} {inner : Context → Tree → Except Problem (List Block)}
    {members : List (Json.Literal × Tree)} {small : ∀ m ∈ members, sizeOf m.2 < n} (blocks : Option (List Block)) :
    Tree.readMembers c ((wrapperSlots inner).map Slot.toField) members small (met blocks) blocks =
      (readWrapped c inner blocks members).map fun out => (met out, out) := by
  induction members generalizing blocks with
  | nil => rfl
  | cons m rest ih =>
    obtain ⟨key, t⟩ := m
    rw [Tree.readMembers, readWrapped]
    cases key.read with
    | error p => rfl
    | ok name =>
      simp only [Tree.find?_toField, bind, Except.bind]
      by_cases known : name = "blocks"
      · subst known
        cases blocks with
        | some bs => rfl
        | none =>
          change ((Except.map _ (inner c t)).bind _) = Except.map _ ((inner c t).bind _)
          cases inner c t with
          | error p => rfl
          | ok bs => exact ih (some bs)
      · have other : Slot.named? (wrapperSlots inner) name = none := by
          simp [Slot.named?, wrapperSlots, Ne.symm known]
        simp only [other, Option.map_none, beq_false_of_ne known, Bool.false_eq_true, if_false]
        cases t.skip with
        | error p => rfl
        | ok _ => exact ih blocks

/-- The blocks in a wrapper are read as its one field. -/
theorem readBlocks_wrapper (c : Context) (wrappers : Nat) (members : List (Json.Literal × Tree))
    (flaw : Option Json.Flaw) (title : String) :
    (Tree.object members flaw).readRecord c title none ((wrapperSlots (readBlocks wrappers)).map Slot.toField) =
      (readBlocks (wrappers + 1) c (.object members flaw)).map some := by
  rw [Tree.readRecord, readBlocks]
  cases c.enter with
  | error p => rfl
  | ok inner =>
    change (Tree.readMembers inner _ members _ (met none) none).bind _ = _
    rw [readMembers_wrapper]
    change Except.bind (Except.map _ (readWrapped inner (readBlocks wrappers) none members)) _ =
      Except.map some ((readWrapped inner (readBlocks wrappers) none members).bind _)
    cases readWrapped inner (readBlocks wrappers) none members with
    | error p => rfl
    | ok out =>
      cases flaw with
      | some f => rfl
      | none => cases out <;> rfl

theorem readBlocks_array (c : Context) (wrappers : Nat) (items : List Tree) (flaw : Option Json.Flaw) :
    readBlocks wrappers c (.array items flaw) = (Tree.array items flaw).readList c (Tree.anySize Block.read) := by
  cases wrappers <;> rfl

/-- Blocks are read from a list, or from the one field of an object, in which there is one wrapper less. -/
theorem readBlocks_eq_ok_iff {c : Context} (deep : c.Deep) {wrappers : Nat} {t : Tree} {blocks : List Block} :
    readBlocks wrappers c t = .ok blocks ↔
      t.readList c (Tree.anySize Block.read) = .ok blocks ∨
        ∃ fewer members flaw, wrappers = fewer + 1 ∧ t = .object members flaw ∧
          t.readRecord c "" none ((wrapperSlots (readBlocks fewer)).map Slot.toField) = .ok (some blocks) := by
  cases t with
  | array items flaw => simp [readBlocks_array]
  | object members flaw =>
    have unlisted : (Tree.object members flaw).readList c (Tree.anySize Block.read) ≠ .ok blocks := by
      simp [Tree.readList_eq_ok_iff deep]
    cases wrappers with
    | zero => simp [readBlocks, deep.enter, unlisted, Json.bind_eq_ok_iff]
    | succ fewer =>
      have wrapper := readBlocks_wrapper c fewer members flaw ""
      constructor
      · intro reads
        exact .inr ⟨fewer, members, flaw, rfl, rfl, wrapper.trans (congrArg (Except.map some) reads)⟩
      · rintro (listed | ⟨_, _, _, ⟨⟩, ⟨⟩, wrapped⟩)
        · exact absurd listed unlisted
        · obtain ⟨_, reads, ⟨⟩⟩ := Json.map_eq_ok_iff.mp (wrapper.symm.trans wrapped)
          exact reads
  | _ => cases wrappers <;> simp [readBlocks, Tree.readList, Tree.wrong_ne_ok]

theorem follows_readBlocks (n wrappers : Nat) : Follows n (readBlocks wrappers) := by
  -- A list ends the descent, and an object leaves one wrapper less.
  induction wrappers using Nat.strongRecOn with
  | ind wrappers ih =>
    intro c c' t t' v blocks deep deep' small means means' reads
    have small : sizeOf t < n + 1 := Nat.lt_succ_of_lt small
    refine (readBlocks_eq_ok_iff deep').mpr ?_
    rcases (readBlocks_eq_ok_iff deep).mp reads with listed | ⟨fewer, members, flaw, rfl, rfl, wrapped⟩
    · exact .inl ((follows_read n).1.readList deep deep' small means means' listed)
    · obtain ⟨-, entries, -, -, rfl⟩ := Tree.means_object_iff.mp means
      obtain ⟨others, entries', rfl, -, -, -⟩ := means'.exists_object
      have independent : Slot.Independent (wrapperSlots (readBlocks fewer)) :=
        Slot.independent_of_pairwise (List.pairwise_singleton ..)
      have follows := Tree.follows_readRecord "" none independent
        (List.forall_mem_singleton.mpr (ih fewer (Nat.lt_succ_self fewer)))
      exact .inr ⟨fewer, others, none, rfl, rfl, follows deep deep' small means means' wrapped⟩

/-- Trees with one meaning hold the same blocks. -/
theorem readBlocks_congr {c c' : Context} {t t' : Tree} {v : Value} (deep : c.Deep) (deep' : c'.Deep)
    (means : t.Means v) (means' : t'.Means v) (wrappers : Nat) (blocks : List Block) :
    readBlocks wrappers c t = .ok blocks ↔ readBlocks wrappers c' t' = .ok blocks :=
  ⟨follows_readBlocks _ wrappers deep deep' (Nat.lt_succ_self _) means means',
    follows_readBlocks _ wrappers deep' deep (Nat.lt_succ_self _) means' means⟩

end Follows

theorem read_eq_ok_iff {α : Type} {d : Json.Document} {reader : Tree → Except Problem α} {a : α} :
    d.read reader = .ok a ↔ reader d.tree = .ok a ∧ d.more = false := by
  rw [Json.Document.read, Json.bind_eq_ok_iff]
  cases d.more with
  | true => simp [bind, Except.bind]
  | false => simp [pure, Except.pure]

/-- A text that is a value in which no object repeats a name, and the value by itself, either are both no
workspace or hold the same blocks, which get the names that they lack from either supply. -/
theorem ofBytes_alike_ofValue {bytes : List UInt8} {v : Value} (parsed : Value.ofBytes bytes = .ok v)
    (distinct : (Json.Document.ofBytes bytes).tree.Distinct) (fresh fresh' : Nat → BlockId) :
    (∃ p p', ofBytes fresh bytes = .error p ∧ ofValue fresh' v = .error p') ∨
      ∃ blocks, ofBytes fresh bytes = .ok (ofBlocks fresh blocks) ∧
        ofValue fresh' v = .ok (ofBlocks fresh' blocks) ∧
          List.Forall₂ (Block.Alike (SameName fresh fresh')) (ofBlocks fresh blocks).top
            (ofBlocks fresh' blocks).top := by
  obtain ⟨read, whole⟩ := read_eq_ok_iff.mp parsed
  have sound := Json.Document.sound_ofBytes bytes
  have means := Tree.Means.of_read read sound distinct
  have means' := Tree.means_tree_of_read read sound
  have same := readBlocks_congr (rfl : Context.deepText.Deep) (rfl : Context.value.Deep) means means' maxWrappers
  cases found : readBlocks maxWrappers .value v.tree with
  | ok blocks =>
    refine .inr ⟨blocks, ?_, ?_, fillBlocks_alike fresh fresh' blocks 0⟩
    · rw [ofBytes, read_eq_ok_iff.mpr ⟨(same blocks).mpr found, whole⟩]
      rfl
    · rw [ofValue, found]
      rfl
  | error p' =>
    left
    cases text : (Json.Document.ofBytes bytes).read (readBlocks maxWrappers .deepText) with
    | ok blocks =>
      cases found.symm.trans ((same blocks).mp (read_eq_ok_iff.mp text).1)
    | error p =>
      refine ⟨p, p', ?_, ?_⟩
      · rw [ofBytes, text]
        rfl
      · rw [ofValue, found]
        rfl

/-- Wrapped blocks with members out of order and members that mean nothing; the second block is a list of its
fields, without a name. -/
def sketch : Value := .object [("version", .array [.null]), ("blocks", .object [("note", .string ""),
  ("blocks", .array [.object [("next", .object [("shadow", .array [.string "turn"])]), ("type", .string "go"),
    ("inputs", .object []), ("x", .bool true)],
    .array [.string "move", .string "", .object [("steps", .string "2")]]])])]

theorem ofBytes_alike_ofValue_sketch : Value.ofBytes (Text.bytes sketch.render) = .ok sketch.settle ∧
    (Json.Document.ofBytes (Text.bytes sketch.render)).tree.Distinct ∧ ∀ fresh fresh',
      (∃ p p', ofBytes fresh (Text.bytes sketch.render) = .error p ∧ ofValue fresh' sketch.settle = .error p') ∨
        ∃ blocks, ofBytes fresh (Text.bytes sketch.render) = .ok (ofBlocks fresh blocks) ∧
          ofValue fresh' sketch.settle = .ok (ofBlocks fresh' blocks) ∧
            List.Forall₂ (Block.Alike (SameName fresh fresh')) (ofBlocks fresh blocks).top
              (ofBlocks fresh' blocks).top := by
  have sound : sketch.Sound := by simp [sketch, Value.Sound, Value.AllSound, Value.MembersSound]
  have shallow : sketch.nesting ≤ 127 := by decide
  have parsed := (Value.ofBytes_render sound shallow).1
  have document := (Value.scanned_render sound).document (List.forall_mem_nil _)
  rw [List.append_nil] at document
  have distinct : (Json.Document.ofBytes (Text.bytes sketch.render)).tree.Distinct := by
    rw [document]
    simp [sketch, Value.tree, Value.trees, Value.treeMembers, Tree.Distinct, Tree.AllDistinct,
      Tree.MembersDistinct]
  exact ⟨parsed, distinct, ofBytes_alike_ofValue parsed distinct⟩

end BlockPlay.Workspace

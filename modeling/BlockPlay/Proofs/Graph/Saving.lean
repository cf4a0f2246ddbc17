import BlockPlay.Proofs.Graph.Reading

/-!
Workspaces saved and loaded again. What a reader finds has its entries in order, and a workspace with its entries
in order and a name for each block is read back from what is written of it.
-/
namespace BlockPlay.Workspace

open Json (Value Tree Context Problem)
open Json.Tree (Slot Yields Adds)

/-- The entries of a block are in order, and the values of its fields are as they are read. -/
structure Block.Tidy (b : Block) : Prop where
  fields : Entries.Ordered b.fields
  values : ∀ e ∈ b.fields, e.2.tree.Means e.2
  inputs : Entries.Ordered b.inputs

def Block.Settled (b : Block) : Prop := b.Throughout Tidy

def Connection.Settled (c : Connection) : Prop := c.Throughout Block.Tidy

section Read

theorem yields_readFields (n : Nat) :
    Yields n readFields fun fields => Entries.Ordered fields ∧ ∀ e ∈ fields, e.2.tree.Means e.2 := by
  have value : Yields n Tree.readValue fun v => v.tree.Means v :=
    fun _ _ _ _ _ sound read => Tree.means_tree_of_read read sound
  exact value.readMap.mono (Nat.le_succ n)

theorem settled_default : Block.Settled default := ⟨⟨.nil, nofun, .nil⟩, trivial, trivial⟩

theorem Block.keeps_slots {n : Nat} (connection : Yields n Connection.read Connection.Settled) :
    ∀ s ∈ Block.slots, s.Keeps n Block.Settled := by
  have inputs : Yields n readInputs fun inputs => Entries.Ordered inputs ∧ ∀ e ∈ inputs, e.2.Settled :=
    connection.readMap.mono (Nat.le_succ n)
  simp only [Block.slots, List.forall_mem_cons]
  refine ⟨?_, ?_, ?_, ?_, ?_, List.forall_mem_nil _⟩
  · rintro c t kind ⟨_, _, _, _, _⟩ - - - - ⟨tidy, plugged, below⟩
    exact ⟨⟨tidy.fields, tidy.values, tidy.inputs⟩, plugged, below⟩
  · rintro c t id ⟨_, _, _, _, _⟩ - - - - ⟨tidy, plugged, below⟩
    exact ⟨⟨tidy.fields, tidy.values, tidy.inputs⟩, plugged, below⟩
  · rintro c t fields ⟨_, _, _, _, _⟩ deep small sound read ⟨tidy, plugged, below⟩
    obtain ⟨ordered, values⟩ := yields_readFields n deep small sound read
    exact ⟨⟨ordered, values, tidy.inputs⟩, plugged, below⟩
  · rintro c t plugs ⟨_, _, _, _, _⟩ deep small sound read ⟨tidy, -, below⟩
    obtain ⟨ordered, each⟩ := inputs deep small sound read
    exact ⟨⟨tidy.fields, tidy.values, ordered⟩, inputsThroughout_iff.mpr each, below⟩
  · rintro c t next ⟨_, _, _, _, _⟩ deep small sound read ⟨tidy, plugged, -⟩
    have each := connection.readNullable deep small sound read
    exact ⟨⟨tidy.fields, tidy.values, tidy.inputs⟩, plugged, nextThroughout_iff.mpr each⟩

theorem Connection.keeps_slots {n : Nat} (block : Yields n Block.read Block.Settled) :
    ∀ s ∈ Connection.slots, s.Keeps n Connection.Settled := by
  simp only [Connection.slots, List.forall_mem_cons]
  refine ⟨?_, ?_, List.forall_mem_nil _⟩
  · rintro c t held ⟨_, _⟩ deep small sound read ⟨-, second⟩
    exact ⟨heldThroughout_iff.mpr (block.readNullable deep small sound read), second⟩
  · rintro c t held ⟨_, _⟩ deep small sound read ⟨first, -⟩
    exact ⟨first, heldThroughout_iff.mpr (block.readNullable deep small sound read)⟩

theorem yields_read (n : Nat) :
    Yields n Block.read Block.Settled ∧ Yields n Connection.read Connection.Settled := by
  induction n with
  | zero => exact ⟨Tree.yields_zero, Tree.yields_zero⟩
  | succ n ih =>
    obtain ⟨block, connection⟩ := ih
    constructor
    · rw [funext₂ Block.read_eq]
      exact Tree.yields_readRecord _ (Block.keeps_slots connection) settled_default
    · rw [funext₂ Connection.read_eq]
      exact Tree.yields_readRecord _ (Connection.keeps_slots block) ⟨trivial, trivial⟩

theorem yields_readBlocks (n wrappers : Nat) :
    Yields n (readBlocks wrappers) fun blocks => ∀ b ∈ blocks, b.Settled := by
  induction wrappers using Nat.strongRecOn with
  | ind wrappers ih =>
    intro c t blocks deep small sound reads
    have small : sizeOf t < n + 1 := Nat.lt_succ_of_lt small
    rcases (readBlocks_eq_ok_iff deep).mp reads with listed | ⟨fewer, members, flaw, rfl, rfl, wrapped⟩
    · exact (yields_read n).1.readList deep small sound listed
    · have keeps : ∀ s ∈ wrapperSlots (readBlocks fewer),
          s.Keeps n fun found => ∀ blocks ∈ found, ∀ b ∈ blocks, b.Settled := by
        refine List.forall_mem_singleton.mpr ?_
        rintro c t blocks found deep small sound read - _ ⟨⟩
        exact ih fewer (Nat.lt_succ_self fewer) deep small sound read
      have empty : ∀ blocks ∈ (none : Option (List Block)), ∀ b ∈ blocks, b.Settled :=
        fun _ inside => absurd inside (Option.not_mem_none _)
      exact Tree.yields_readRecord "" keeps empty deep small sound wrapped blocks rfl

end Read

section Filled

variable {fresh : Nat → BlockId}

theorem fillInputs_names (used : Nat) (inputs : Entries Connection) :
    (fillInputs fresh used inputs).1.map Prod.fst = inputs.map Prod.fst := by
  induction inputs generalizing used with
  | nil => rfl
  | cons e rest ih =>
    obtain ⟨name, c⟩ := e
    rw [fillInputs, List.map_cons, List.map_cons, ih]

/-- Fresh names change nothing about the entries of a block. -/
theorem Block.tidy_fill (b : Block) (used : Nat) (tidy : b.Tidy) : (b.fill fresh used).1.Tidy := by
  obtain ⟨kind, id, fields, inputs, next⟩ := b
  refine ⟨tidy.fields, tidy.values, ?_⟩
  change Entries.Ordered (fillInputs fresh (nameOr fresh used id).2 inputs).1
  rw [Entries.ordered_iff, fillInputs_names, ← Entries.ordered_iff]
  exact tidy.inputs

end Filled

section Written

theorem inputValues_eq (inputs : Entries Connection) :
    inputValues inputs = inputs.map fun e => (e.1, e.2.toValue) := by
  induction inputs with
  | nil => rfl
  | cons e rest ih => rw [inputValues, ih, List.map_cons]

/-- The members that are written of a block. -/
def Block.members : Block → List (String × Value)
  | .mk kind id fields inputs next =>
    [("type", .string kind), ("id", .string id.text)]
      ++ ((if fields.isEmpty then [] else [("fields", .object fields)])
        ++ (if inputs.isEmpty then [] else [("inputs", .object (inputValues inputs))])
        ++ connectionMember "next" next)

def Connection.members : Connection → List (String × Value)
  | .mk block shadow => blockMember "block" block ++ blockMember "shadow" shadow

theorem Block.toValue_eq (b : Block) : b.toValue = .object b.members := by
  cases b
  rfl

theorem Connection.toValue_eq (c : Connection) : c.toValue = .object c.members := by
  cases c
  rfl

theorem apart_of_sublist {members : List (String × Value)} (names : List String)
    (some : (members.map Prod.fst).Sublist names) (different : names.Nodup) : Entries.Apart members :=
  List.pairwise_map.mp (different.sublist some)

theorem Block.apart_members (b : Block) : Entries.Apart b.members := by
  obtain ⟨kind, id, fields, inputs, next⟩ := b
  refine apart_of_sublist ["type", "id", "fields", "inputs", "next"] ?_ (by decide)
  have values : ((if fields.isEmpty then [] else [("fields", Value.object fields)]).map Prod.fst).Sublist
      ["fields"] := by split <;> simp
  have plugs : ((if inputs.isEmpty then [] else [("inputs", Value.object (inputValues inputs))]).map
      Prod.fst).Sublist ["inputs"] := by split <;> simp
  have below : ((connectionMember "next" next).map Prod.fst).Sublist ["next"] := by
    cases next <;> simp [connectionMember]
  simp only [members, List.map_append]
  exact .append (.refl ["type", "id"]) ((values.append plugs).append below)

theorem Connection.apart_members (c : Connection) : Entries.Apart c.members := by
  obtain ⟨block, shadow⟩ := c
  refine apart_of_sublist ["block", "shadow"] ?_ (by decide)
  have held (name : String) (block : Option Block) : ((blockMember name block).map Prod.fst).Sublist [name] := by
    cases block <;> simp [blockMember]
  rw [members, List.map_append]
  exact (held "block" block).append (held "shadow" shadow)

mutual

/-- What is written of a settled block has a form in a document. -/
theorem Block.proper_toValue : (b : Block) → b.Settled → b.toValue.Proper
  | .mk kind id fields inputs next, ⟨tidy, plugged, below⟩ => by
    rw [Block.toValue_eq]
    refine Json.Value.proper_object (Block.apart_members _) ?_
    have values : (Value.object fields).Proper :=
      Json.Value.proper_object tidy.fields.apart fun e inside => ⟨e.2, tidy.values e inside⟩
    have plugs : (Value.object (inputValues inputs)).Proper := by
      have apart : Entries.Apart (inputValues inputs) := by
        rw [inputValues_eq]
        exact List.pairwise_map.mpr tidy.inputs.apart
      exact Json.Value.proper_object apart (proper_inputValues inputs plugged)
    have text (s : String) : (Value.string s).Proper := ⟨.string s, rfl, fun _ _ => rfl, trivial⟩
    simp only [Block.members, List.forall_mem_append]
    refine ⟨List.forall_mem_cons.mpr ⟨text kind, List.forall_mem_singleton.mpr (text id.text)⟩, ⟨?_, ?_⟩,
      proper_connectionMember "next" next below⟩
    · split
      next => exact nofun
      next => exact List.forall_mem_singleton.mpr values
    · split
      next => exact nofun
      next => exact List.forall_mem_singleton.mpr plugs

theorem Connection.proper_toValue : (c : Connection) → c.Settled → c.toValue.Proper
  | .mk block shadow, ⟨first, second⟩ => by
    rw [Connection.toValue_eq]
    refine Json.Value.proper_object (Connection.apart_members _) (List.forall_mem_append.mpr ⟨?_, ?_⟩)
    · exact proper_blockMember "block" block first
    · exact proper_blockMember "shadow" shadow second

theorem proper_blockMember (name : String) : (block : Option Block) → HeldThroughout Block.Tidy block →
    ∀ m ∈ blockMember name block, m.2.Proper
  | none, _ => nofun
  | some b, settled => List.forall_mem_singleton.mpr (b.proper_toValue settled)

theorem proper_connectionMember (name : String) : (next : Option Connection) → NextThroughout Block.Tidy next →
    ∀ m ∈ connectionMember name next, m.2.Proper
  | none, _ => nofun
  | some c, settled => List.forall_mem_singleton.mpr (c.proper_toValue settled)

theorem proper_inputValues : (inputs : Entries Connection) → InputsThroughout Block.Tidy inputs →
    ∀ m ∈ inputValues inputs, m.2.Proper
  | [], _ => nofun
  | (_, c) :: rest, ⟨first, others⟩ =>
    List.forall_mem_cons.mpr ⟨c.proper_toValue first, proper_inputValues rest others⟩

end

variable {c : Context}

theorem readFields_object (deep : c.Deep) {b : Block} (tidy : b.Tidy) :
    readFields c (Value.object b.fields).tree = .ok b.fields := by
  have same : b.fields.map (fun e => (e.1, id e.2)) = b.fields := List.map_id _
  have reads := Tree.readMap_object deep id tidy.fields
    fun e inside => (tidy.values e inside).reads deep
  rwa [same] at reads

/-- What is written of a block or of a connection is not nothing. -/
theorem readNullable_object {α : Type} {read : Context → Tree → Except Problem α} {a : α}
    {members : List (String × Value)} (reads : read c (Value.object members).tree = .ok a) :
    Tree.readNullable read c (Value.object members).tree = .ok (some a) :=
  Tree.readNullable_eq_ok_iff.mpr (.inr ⟨rfl, a, reads, rfl⟩)

theorem adds_connectionMember {kind : String} {id : BlockId} {fields : Entries Value} {inputs : Entries Connection}
    {next : Option Connection} (reads : ∀ below ∈ next, Connection.read c below.toValue.tree = .ok below) :
    Adds Block.slots c (connectionMember "next" next) (.mk kind id fields inputs none)
      (.mk kind id fields inputs next) := by
  cases next with
  | none => exact .nil
  | some below =>
    have read := reads below rfl
    rw [connectionMember]
    rw [Connection.toValue_eq] at read ⊢
    exact .cons rfl (readNullable_object read) .nil

theorem adds_blockMember {name : String} (set : Option Block → Connection → Connection) {a : Connection}
    {block : Option Block} (absent : set none a = a)
    (slot : Slot.named? Connection.slots name = some ⟨name, false, Tree.readNullable Block.read, set⟩)
    (reads : ∀ b ∈ block, Block.read c b.toValue.tree = .ok b) :
    Adds Connection.slots c (blockMember name block) a (set block a) := by
  cases block with
  | none =>
    rw [absent]
    exact .nil
  | some b =>
    have read := reads b rfl
    rw [blockMember]
    rw [Block.toValue_eq] at read ⊢
    exact .cons slot (readNullable_object read) .nil

mutual

/-- A settled block is read back from what is written of it. -/
theorem Block.read_toValue (deep : c.Deep) : (b : Block) → b.Settled → Block.read c b.toValue.tree = .ok b
  | .mk kind id fields inputs next, ⟨tidy, plugged, below⟩ => by
    -- Part by part, in the order in which they are written; a part left out is the one to start from.
    have named : Adds Block.slots c [("type", .string kind), ("id", .string id.text)] default
      (.mk kind id [] [] none) := .cons rfl rfl (.cons rfl rfl .nil)
    have values : Adds Block.slots c (if fields.isEmpty then [] else [("fields", .object fields)])
        (.mk kind id [] [] none) (.mk kind id fields [] none) := by
      have reads : readFields c (Value.object fields).tree = .ok fields := readFields_object deep tidy
      cases fields with
      | nil => exact .nil
      | cons e rest => exact .cons rfl reads .nil
    have plugs : Adds Block.slots c (if inputs.isEmpty then [] else [("inputs", .object (inputValues inputs))])
        (.mk kind id fields [] none) (.mk kind id fields inputs none) := by
      have reads : readInputs c (Value.object (inputValues inputs)).tree = .ok inputs := by
        rw [inputValues_eq]
        exact Tree.readMap_object deep Connection.toValue tidy.inputs (read_inputValues deep inputs plugged)
      cases inputs with
      | nil => exact .nil
      | cons e rest => exact .cons rfl reads .nil
    rw [Block.toValue_eq, Block.read_eq]
    refine Tree.readRecord_object deep _ (Block.apart_members _)
      (named.append ((values.append plugs).append (adds_connectionMember (read_next deep next below)))) ?_
    simp [Block.slots, Block.members]

theorem Connection.read_toValue (deep : c.Deep) : (connection : Connection) → connection.Settled →
    Connection.read c connection.toValue.tree = .ok connection
  | .mk block shadow, ⟨first, second⟩ => by
    have real : Adds Connection.slots c (blockMember "block" block) default (.mk block none) :=
      adds_blockMember Connection.setBlock rfl rfl (read_held deep block first)
    have standby : Adds Connection.slots c (blockMember "shadow" shadow) (.mk block none) (.mk block shadow) :=
      adds_blockMember Connection.setShadow rfl rfl (read_held deep shadow second)
    rw [Connection.toValue_eq, Connection.read_eq]
    refine Tree.readRecord_object deep _ (Connection.apart_members _) (real.append standby) ?_
    simp [Connection.slots]

theorem read_held (deep : c.Deep) : (block : Option Block) → HeldThroughout Block.Tidy block →
    ∀ b ∈ block, Block.read c b.toValue.tree = .ok b
  | none, _ => nofun
  | some b, settled => by
    rintro _ ⟨⟩
    exact b.read_toValue deep settled

theorem read_next (deep : c.Deep) : (next : Option Connection) → NextThroughout Block.Tidy next →
    ∀ below ∈ next, Connection.read c below.toValue.tree = .ok below
  | none, _ => nofun
  | some connection, settled => by
    rintro _ ⟨⟩
    exact connection.read_toValue deep settled

theorem read_inputValues (deep : c.Deep) : (inputs : Entries Connection) → InputsThroughout Block.Tidy inputs →
    ∀ e ∈ inputs, Connection.read c e.2.toValue.tree = .ok e.2
  | [], _ => nofun
  | (_, connection) :: rest, ⟨first, others⟩ =>
    List.forall_mem_cons.mpr ⟨connection.read_toValue deep first, read_inputValues deep rest others⟩

end

end Written

/-- A workspace that a reader made of a text or of a value. -/
inductive Loaded (fresh : Nat → BlockId) : Workspace → Prop
  | text {bytes : List UInt8} {w : Workspace} (read : ofBytes fresh bytes = .ok w) : Loaded fresh w
  | value {v : Value} {w : Workspace} (sound : v.Sound) (read : ofValue fresh v = .ok w) : Loaded fresh w

/-- The blocks that a reader finds are settled, and get the names that they lack. -/
theorem Loaded.exists_blocks {fresh : Nat → BlockId} {w : Workspace} (loaded : Loaded fresh w) :
    ∃ blocks, (∀ b ∈ blocks, b.Settled) ∧ w = ofBlocks fresh blocks := by
  cases loaded with
  | @text bytes w read =>
    obtain ⟨blocks, found, rfl⟩ := Json.map_eq_ok_iff.mp read
    have sound := Json.Document.sound_ofBytes bytes
    exact ⟨blocks, yields_readBlocks _ maxWrappers (rfl : Context.deepText.Deep) (Nat.lt_succ_self _) sound
      (read_eq_ok_iff.mp found).1, rfl⟩
  | @value v w sound read =>
    obtain ⟨blocks, found, rfl⟩ := Json.map_eq_ok_iff.mp read
    exact ⟨blocks, yields_readBlocks _ maxWrappers (rfl : Context.value.Deep) (Nat.lt_succ_self _)
      (v.sound_tree.mpr sound) found, rfl⟩

theorem Loaded.settled_named {fresh : Nat → BlockId} {w : Workspace} (loaded : Loaded fresh w)
    (given : ∀ n, (fresh n).text ≠ "") :
    (∀ b ∈ w.top, b.Settled) ∧ ∀ b ∈ w.top, b.Throughout Block.Named := by
  obtain ⟨blocks, settled, rfl⟩ := loaded.exists_blocks
  exact ⟨throughout_fillBlocks Block.tidy_fill 0 settled,
    throughout_fillBlocks (fun b used _ => b.named_fill given used) 0 fun b _ => b.throughout_true⟩

/-- The blocks of a workspace are read back from the tree of what is written of them. -/
theorem readBlocks_toValue {c : Context} (deep : c.Deep) {w : Workspace} (settled : ∀ b ∈ w.top, b.Settled)
    (wrappers : Nat) : readBlocks wrappers c w.toValue.tree = .ok w.top := by
  have tree : w.toValue.tree = .array (w.top.map fun b => b.toValue.tree) none := by
    rw [toValue, Value.tree, Json.Value.trees_eq, List.map_map]
    rfl
  refine (readBlocks_eq_ok_iff deep).mpr (.inl ((Tree.readList_eq_ok_iff deep).mpr ⟨_, tree, ?_⟩))
  rw [List.forall₂_map_left_iff, List.forall₂_same]
  exact fun b inside => b.read_toValue deep (settled b inside)

theorem proper_toValue {w : Workspace} (settled : ∀ b ∈ w.top, b.Settled) : w.toValue.Proper := by
  refine Json.Value.proper_array fun v inside => ?_
  obtain ⟨b, top, rfl⟩ := List.mem_map.mp inside
  exact b.proper_toValue (settled b top)

/-- A text scanned as a workspace with settled blocks is loaded as the workspace, but for fresh names. -/
theorem ofBytes_scanned {w : Workspace} (settled : ∀ b ∈ w.top, b.Settled) {text : String}
    (scanned : Json.Scanned text w.toValue.tokens) (fresh : Nat → BlockId) :
    ofBytes fresh (Text.bytes text) = .ok (ofBlocks fresh w.top) := by
  have document := scanned.document (List.forall_mem_nil _)
  rw [List.append_nil] at document
  rw [ofBytes, document, Json.Document.read_whole,
    readBlocks_toValue (rfl : Context.deepText.Deep) settled maxWrappers]
  rfl

theorem ofValue_settle {w : Workspace} (settled : ∀ b ∈ w.top, b.Settled) (fresh : Nat → BlockId) :
    ofValue fresh w.toValue.settle = .ok (ofBlocks fresh w.top) := by
  have means := (proper_toValue settled).means
  -- The settled value has its members sorted by name: it shares the meaning of what is written, not the tree.
  have means' := Tree.means_tree_of_read means.read means.sound
  have written := readBlocks_toValue (rfl : Context.deepText.Deep) settled maxWrappers
  rw [ofValue, (readBlocks_congr (rfl : Context.deepText.Deep) (rfl : Context.value.Deep) means means' _ _).mp
    written]
  rfl

/-- All that is written of the workspace is loaded as the workspace, and no fresh name is used for it. -/
structure Lasting (fresh : Nat → BlockId) (w : Workspace) : Prop where
  compact : ofBytes fresh (Text.bytes w.toValue.render) = .ok w
  pretty : ofBytes fresh (Text.bytes w.toValue.renderPretty) = .ok w
  value : ofValue fresh w.toValue.settle = .ok w
  named : fillBlocks fresh 0 w.top = (w.top, 0)

/-- A workspace that was loaded lasts. -/
theorem lasting_of_loaded {fresh : Nat → BlockId} (given : ∀ n, (fresh n).text ≠ "") {w : Workspace}
    (loaded : Loaded fresh w) (fresh' : Nat → BlockId) : w.Lasting fresh' := by
  obtain ⟨settled, named⟩ := loaded.settled_named given
  have kept : fillBlocks fresh' 0 w.top = (w.top, 0) := fillBlocks_named 0 named
  have same : ofBlocks fresh' w.top = w := by rw [ofBlocks, kept]
  have sound := (proper_toValue settled).sound
  have compact := ofBytes_scanned settled (Value.scanned_render sound) fresh'
  have pretty := ofBytes_scanned settled (Value.scanned_renderPretty sound) fresh'
  have value := ofValue_settle settled fresh'
  rw [same] at compact pretty value
  exact ⟨compact, pretty, value, kept⟩

/-- A block without a name, and one below it that has values of several kinds and holds an empty connection and
a shadow. -/
def draft : List Block :=
  [.mk "start" ⟨""⟩ [] [] (some (.mk (some (.mk "repeat" ⟨"again"⟩
    [("count", .number (.integer 3)), ("more", .object [("x", .null), ("y", .array [.bool true])])]
    [("body", .mk none none), ("times", .mk none (some (.mk "number" ⟨""⟩ [] [] none)))] none)) none))]

theorem settled_draft : ∀ b ∈ draft, b.Settled := by
  have count : (Value.number (.integer 3)).tree.Means (.number (.integer 3)) :=
    ⟨rfl, ⟨by decide, by decide⟩, trivial⟩
  have x : Value.null.tree.Means .null := ⟨rfl, trivial, trivial⟩
  have y : (Value.array [.bool true]).tree.Means (.array [.bool true]) :=
    ⟨rfl, ⟨trivial, trivial⟩, trivial, trivial⟩
  have more : (Value.object [("x", .null), ("y", .array [.bool true])]).tree.Means
      (.object [("x", .null), ("y", .array [.bool true])]) :=
    Tree.means_tree_object (List.pairwise_pair.mpr (by decide))
      (List.forall_mem_cons.mpr ⟨x, List.forall_mem_singleton.mpr y⟩)
  have bare : (Block.mk "number" ⟨""⟩ [] [] none).Settled := ⟨⟨.nil, nofun, .nil⟩, trivial, trivial⟩
  refine List.forall_mem_singleton.mpr ⟨⟨.nil, nofun, .nil⟩, trivial, ⟨⟨?_, ?_, ?_⟩, ⟨⟨trivial, trivial⟩,
    ⟨trivial, bare⟩, trivial⟩, trivial⟩, trivial⟩
  · exact List.pairwise_pair.mpr (by decide)
  · exact List.forall_mem_cons.mpr ⟨count, List.forall_mem_singleton.mpr more⟩
  · exact List.pairwise_pair.mpr (by decide)

def newName (_ : Nat) : BlockId := ⟨"new"⟩

theorem lasting_of_loaded_draft : (∀ n, (newName n).text ≠ "") ∧ Loaded newName (ofBlocks newName draft) ∧
    ∀ fresh', (ofBlocks newName draft).Lasting fresh' := by
  have given (n : Nat) : (newName n).text ≠ "" := by simp [newName]
  have settled : ∀ b ∈ (Workspace.mk draft).top, b.Settled := settled_draft
  have written := (proper_toValue settled).sound
  have loaded : Loaded newName (ofBlocks newName draft) :=
    .text (ofBytes_scanned settled (Value.scanned_render written) newName)
  exact ⟨given, loaded, lasting_of_loaded given loaded⟩

end BlockPlay.Workspace

import BlockPlay.Graph.Workspace
import Mathlib.Data.List.Forall2

/-!
Fresh names for blocks without one. Which names are fresh makes no other difference to the blocks, blocks with
names keep them, and blocks that all have names stay as they are.
-/
namespace BlockPlay.Workspace

section Throughout

variable {p q : Block → Prop} {fresh : Nat → BlockId}

mutual

/-- The block has a property, and so have all blocks that it holds. -/
def Block.Throughout (p : Block → Prop) : Block → Prop
  | .mk kind id fields inputs next =>
    p (.mk kind id fields inputs next) ∧ InputsThroughout p inputs ∧ NextThroughout p next

def Connection.Throughout (p : Block → Prop) : Connection → Prop
  | .mk block shadow => HeldThroughout p block ∧ HeldThroughout p shadow

def HeldThroughout (p : Block → Prop) : Option Block → Prop
  | none => True
  | some b => b.Throughout p

def NextThroughout (p : Block → Prop) : Option Connection → Prop
  | none => True
  | some c => c.Throughout p

def InputsThroughout (p : Block → Prop) : List (String × Connection) → Prop
  | [] => True
  | (_, c) :: rest => c.Throughout p ∧ InputsThroughout p rest

end

theorem heldThroughout_iff {block : Option Block} : HeldThroughout p block ↔ ∀ b ∈ block, b.Throughout p := by
  cases block <;> simp [HeldThroughout]

theorem nextThroughout_iff {next : Option Connection} : NextThroughout p next ↔ ∀ c ∈ next, c.Throughout p := by
  cases next <;> simp [NextThroughout]

theorem inputsThroughout_iff {inputs : Entries Connection} :
    InputsThroughout p inputs ↔ ∀ e ∈ inputs, e.2.Throughout p := by
  induction inputs with
  | nil => simp [InputsThroughout]
  | cons e rest ih => simp [InputsThroughout, ih]

mutual

/-- What filling makes of single blocks it makes of all blocks that they hold. -/
theorem Block.throughout_fill (step : ∀ b used, q b → p (b.fill fresh used).1) : (b : Block) → (used : Nat) →
    b.Throughout q → (b.fill fresh used).1.Throughout p
  | .mk _ _ _ inputs next, used, ⟨here, plugged, below⟩ =>
    ⟨step _ used here, throughout_fillInputs step inputs _ plugged, throughout_fillConnection step next _ below⟩

theorem Connection.throughout_fill (step : ∀ b used, q b → p (b.fill fresh used).1) : (c : Connection) →
    (used : Nat) → c.Throughout q → (c.fill fresh used).1.Throughout p
  | .mk block shadow, used, ⟨first, second⟩ =>
    ⟨throughout_fillBlock step block used first, throughout_fillBlock step shadow _ second⟩

theorem throughout_fillBlock (step : ∀ b used, q b → p (b.fill fresh used).1) : (block : Option Block) →
    (used : Nat) → HeldThroughout q block → HeldThroughout p (fillBlock fresh used block).1
  | none, _, _ => trivial
  | some b, used, held => Block.throughout_fill step b used held

theorem throughout_fillConnection (step : ∀ b used, q b → p (b.fill fresh used).1) : (next : Option Connection) →
    (used : Nat) → NextThroughout q next → NextThroughout p (fillConnection fresh used next).1
  | none, _, _ => trivial
  | some c, used, held => Connection.throughout_fill step c used held

theorem throughout_fillInputs (step : ∀ b used, q b → p (b.fill fresh used).1) :
    (inputs : List (String × Connection)) → (used : Nat) → InputsThroughout q inputs →
      InputsThroughout p (fillInputs fresh used inputs).1
  | [], _, _ => trivial
  | (_, c) :: rest, used, ⟨first, others⟩ =>
    ⟨Connection.throughout_fill step c used first, throughout_fillInputs step rest _ others⟩

end

theorem throughout_fillBlocks (step : ∀ b used, q b → p (b.fill fresh used).1) {blocks : List Block}
    (used : Nat) (each : ∀ b ∈ blocks, b.Throughout q) :
    ∀ b ∈ (fillBlocks fresh used blocks).1, b.Throughout p := by
  induction blocks generalizing used with
  | nil => exact nofun
  | cons b rest ih =>
    obtain ⟨first, others⟩ := List.forall_mem_cons.mp each
    exact List.forall_mem_cons.mpr ⟨b.throughout_fill step used first, ih _ others⟩

mutual

theorem Block.throughout_true : (b : Block) → b.Throughout fun _ => True
  | .mk _ _ _ inputs next => ⟨trivial, inputsThroughout_true inputs, nextThroughout_true next⟩

theorem Connection.throughout_true : (c : Connection) → c.Throughout fun _ => True
  | .mk block shadow => ⟨heldThroughout_true block, heldThroughout_true shadow⟩

theorem heldThroughout_true : (block : Option Block) → HeldThroughout (fun _ => True) block
  | none => trivial
  | some b => b.throughout_true

theorem nextThroughout_true : (next : Option Connection) → NextThroughout (fun _ => True) next
  | none => trivial
  | some c => c.throughout_true

theorem inputsThroughout_true : (inputs : List (String × Connection)) → InputsThroughout (fun _ => True) inputs
  | [] => trivial
  | (_, c) :: rest => ⟨c.throughout_true, inputsThroughout_true rest⟩

end

end Throughout

section Names

variable {fresh : Nat → BlockId}

def Block.Named (b : Block) : Prop := b.id.text ≠ ""

theorem text_nameOr (given : ∀ n, (fresh n).text ≠ "") (used : Nat) (id : BlockId) :
    (nameOr fresh used id).1.text ≠ "" := by
  rw [nameOr]
  split
  next => exact given used
  next named => exact named

/-- A block has a name once fresh names have been given. -/
theorem Block.named_fill (given : ∀ n, (fresh n).text ≠ "") (b : Block) (used : Nat) :
    (b.fill fresh used).1.Named := by
  obtain ⟨kind, id, fields, inputs, next⟩ := b
  exact text_nameOr given used id

mutual

/-- Where all blocks have a name, no fresh one is used. -/
theorem Block.fill_named : (b : Block) → (used : Nat) → b.Throughout Block.Named → b.fill fresh used = (b, used)
  | .mk _ id _ inputs next, used, ⟨here, plugged, below⟩ => by
    have kept : nameOr fresh used id = (id, used) := if_neg here
    rw [Block.fill, kept, fillInputs_named inputs used plugged, fillConnection_named next used below]

theorem Connection.fill_named : (c : Connection) → (used : Nat) → c.Throughout Block.Named →
    c.fill fresh used = (c, used)
  | .mk block shadow, used, ⟨first, second⟩ => by
    rw [Connection.fill, fillBlock_named block used first, fillBlock_named shadow used second]

theorem fillBlock_named : (block : Option Block) → (used : Nat) → HeldThroughout Block.Named block →
    fillBlock fresh used block = (block, used)
  | none, _, _ => rfl
  | some b, used, held => by rw [fillBlock, Block.fill_named b used held]

theorem fillConnection_named : (next : Option Connection) → (used : Nat) → NextThroughout Block.Named next →
    fillConnection fresh used next = (next, used)
  | none, _, _ => rfl
  | some c, used, held => by rw [fillConnection, Connection.fill_named c used held]

theorem fillInputs_named : (inputs : List (String × Connection)) → (used : Nat) →
    InputsThroughout Block.Named inputs → fillInputs fresh used inputs = (inputs, used)
  | [], _, _ => rfl
  | (_, c) :: rest, used, ⟨first, others⟩ => by
    rw [fillInputs, Connection.fill_named c used first, fillInputs_named rest used others]

end

theorem fillBlocks_named {blocks : List Block} (used : Nat) (each : ∀ b ∈ blocks, b.Throughout Block.Named) :
    fillBlocks fresh used blocks = (blocks, used) := by
  induction blocks with
  | nil => rfl
  | cons b rest ih =>
    obtain ⟨first, others⟩ := List.forall_mem_cons.mp each
    rw [fillBlocks, Block.fill_named b used first, ih others]

end Names

section Alike

variable (fresh fresh' : Nat → BlockId)

mutual

/-- The blocks differ in nothing but their names, which are related. -/
inductive Block.Alike (same : BlockId → BlockId → Prop) : Block → Block → Prop
  | mk {kind : String} {id id' : BlockId} {fields : Entries Json.Value} {inputs inputs' : Entries Connection}
      {next next' : Option Connection} (named : same id id') (plugged : InputsAlike same inputs inputs')
      (below : NextAlike same next next') :
      Block.Alike same (.mk kind id fields inputs next) (.mk kind id' fields inputs' next')

inductive Connection.Alike (same : BlockId → BlockId → Prop) : Connection → Connection → Prop
  | mk {block block' shadow shadow' : Option Block} (first : HeldAlike same block block')
      (second : HeldAlike same shadow shadow') : Connection.Alike same (.mk block shadow) (.mk block' shadow')

inductive HeldAlike (same : BlockId → BlockId → Prop) : Option Block → Option Block → Prop
  | none : HeldAlike same none none
  | some {b b' : Block} (alike : Block.Alike same b b') : HeldAlike same (some b) (some b')

inductive NextAlike (same : BlockId → BlockId → Prop) : Option Connection → Option Connection → Prop
  | none : NextAlike same none none
  | some {c c' : Connection} (alike : Connection.Alike same c c') : NextAlike same (some c) (some c')

inductive InputsAlike (same : BlockId → BlockId → Prop) : Entries Connection → Entries Connection → Prop
  | nil : InputsAlike same [] []
  | cons {name : String} {c c' : Connection} {rest rest' : Entries Connection}
      (first : Connection.Alike same c c') (others : InputsAlike same rest rest') :
      InputsAlike same ((name, c) :: rest) ((name, c') :: rest')

end

/-- One name that was given before, or the fresh names of one number. -/
def SameName (id id' : BlockId) : Prop :=
  id = id' ∧ id.text ≠ "" ∨ ∃ n, id = fresh n ∧ id' = fresh' n

theorem nameOr_alike (used : Nat) (id : BlockId) :
    SameName fresh fresh' (nameOr fresh used id).1 (nameOr fresh' used id).1 ∧
      (nameOr fresh used id).2 = (nameOr fresh' used id).2 := by
  rw [nameOr, nameOr]
  split
  next => exact ⟨.inr ⟨used, rfl, rfl⟩, rfl⟩
  next named => exact ⟨.inl ⟨rfl, named⟩, rfl⟩

mutual

/-- Filled from two supplies of fresh names, a block comes to the same but for the fresh names, and uses as many
of them. -/
theorem Block.fill_alike : (b : Block) → (used : Nat) →
    (b.fill fresh used).1.Alike (SameName fresh fresh') (b.fill fresh' used).1 ∧
      (b.fill fresh used).2 = (b.fill fresh' used).2
  | .mk _ id _ inputs next, used => by
    obtain ⟨named, first⟩ := nameOr_alike fresh fresh' used id
    obtain ⟨plugged, second⟩ := fillInputs_alike inputs (nameOr fresh used id).2
    obtain ⟨below, third⟩ := fillConnection_alike next (fillInputs fresh (nameOr fresh used id).2 inputs).2
    simp only [Block.fill, ← first, ← second]
    exact ⟨.mk named plugged below, third⟩

theorem Connection.fill_alike : (c : Connection) → (used : Nat) →
    (c.fill fresh used).1.Alike (SameName fresh fresh') (c.fill fresh' used).1 ∧
      (c.fill fresh used).2 = (c.fill fresh' used).2
  | .mk block shadow, used => by
    obtain ⟨real, first⟩ := fillBlock_alike block used
    obtain ⟨standby, second⟩ := fillBlock_alike shadow (fillBlock fresh used block).2
    simp only [Connection.fill, ← first]
    exact ⟨.mk real standby, second⟩

theorem fillBlock_alike : (block : Option Block) → (used : Nat) →
    HeldAlike (SameName fresh fresh') (fillBlock fresh used block).1 (fillBlock fresh' used block).1 ∧
      (fillBlock fresh used block).2 = (fillBlock fresh' used block).2
  | none, _ => ⟨.none, rfl⟩
  | some b, used => ⟨.some (b.fill_alike used).1, (b.fill_alike used).2⟩

theorem fillConnection_alike : (next : Option Connection) → (used : Nat) →
    NextAlike (SameName fresh fresh') (fillConnection fresh used next).1 (fillConnection fresh' used next).1 ∧
      (fillConnection fresh used next).2 = (fillConnection fresh' used next).2
  | none, _ => ⟨.none, rfl⟩
  | some c, used => ⟨.some (c.fill_alike used).1, (c.fill_alike used).2⟩

theorem fillInputs_alike : (inputs : List (String × Connection)) → (used : Nat) →
    InputsAlike (SameName fresh fresh') (fillInputs fresh used inputs).1 (fillInputs fresh' used inputs).1 ∧
      (fillInputs fresh used inputs).2 = (fillInputs fresh' used inputs).2
  | [], _ => ⟨.nil, rfl⟩
  | (_, c) :: rest, used => by
    obtain ⟨plug, first⟩ := c.fill_alike used
    obtain ⟨plugs, others⟩ := fillInputs_alike rest (c.fill fresh used).2
    simp only [fillInputs, ← first]
    exact ⟨.cons plug plugs, others⟩

end

theorem fillBlocks_alike (blocks : List Block) (used : Nat) :
    List.Forall₂ (Block.Alike (SameName fresh fresh')) (fillBlocks fresh used blocks).1
      (fillBlocks fresh' used blocks).1 := by
  induction blocks generalizing used with
  | nil => exact .nil
  | cons b rest ih =>
    obtain ⟨alike, first⟩ := Block.fill_alike fresh fresh' b used
    have others := ih (b.fill fresh used).2
    simp only [fillBlocks, ← first]
    exact .cons alike others

end Alike

end BlockPlay.Workspace

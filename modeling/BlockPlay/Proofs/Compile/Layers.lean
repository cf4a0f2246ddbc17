import BlockPlay.Compile.Resolve
import BlockPlay.Graph.Workspace
import Mathlib.Data.List.Basic

/-!
The layers in which an argument is looked for: the fields of the block itself, then the blocks plugged into its
inputs, one after the other. Within a layer the first value that can be read counts, and one that cannot be read is
as good as absent: without it the argument is the same.
-/
namespace BlockPlay.BlockGraph

variable {Node Other α : Type} {g : BlockGraph Node} {other : BlockGraph Other} {convert : FieldValue → Option α}
  {names : List String} {node : Node} {b : Other} {v : α}

/-- The value under the first of some names that has one. -/
def First (read : String → Option α) (names : List String) (v : α) : Prop :=
  ∃ before name after, names = before ++ name :: after ∧ read name = some v ∧
    ∀ earlier ∈ before, read earlier = none

/-- What a field of a block can be read as. -/
def reads? (g : BlockGraph Node) (convert : FieldValue → Option α) (node : Node) (name : String) : Option α :=
  (g.field? node name).bind convert

/-- What a block tells as a literal: under the wanted names, and only if it has nothing there, under those of
literals. -/
inductive Tells (g : BlockGraph Node) (convert : FieldValue → Option α) (names : List String) (literal : Node) :
    α → Prop
  | wanted {v : α} (first : First (g.reads? convert literal) names v) : Tells g convert names literal v
  | usual {v : α} (silent : ∀ name ∈ names, g.reads? convert literal name = none)
      (first : First (g.reads? convert literal) ["NUM", "VALUE", "TEXT"] v) : Tells g convert names literal v

/-- What an argument of a block is: the first of its own fields that can be read, whatever is plugged in, and only
if there is none, what the first of the blocks in its inputs tells that tells anything. -/
inductive Resolves (g : BlockGraph Node) (convert : FieldValue → Option α) (names : List String) (node : Node) :
    α → Prop
  | own {v : α} (first : First (g.reads? convert node) names v) : Resolves g convert names node v
  | plugged {v : α} {before after : List String} {slot : String} {literal : Node}
      (silent : ∀ name ∈ names, g.reads? convert node name = none) (order : names = before ++ slot :: after)
      (plug : g.input? node slot = some literal) (tells : g.Tells convert names literal v)
      (mute : ∀ earlier ∈ before, ∀ plug, g.input? node earlier = some plug → ∀ w, ¬ g.Tells convert names plug w) :
      Resolves g convert names node v

/-- One block has the fields of another, except for some that cannot be read. -/
def Fewer (g : BlockGraph Node) (convert : FieldValue → Option α) (node : Node) (other : BlockGraph Other)
    (b : Other) : Prop :=
  ∀ name, other.field? b name = g.field? node name ∨
    other.field? b name = none ∧ g.reads? convert node name = none

/-- What may become of an input when nothing of use is taken away: the block in it stays, but for fields that
cannot be read, or it is pulled out and had nothing to tell. -/
inductive Pruned (g : BlockGraph Node) (convert : FieldValue → Option α) (names : List String)
    (other : BlockGraph Other) : Option Node → Option Other → Prop
  | empty : Pruned g convert names other none none
  | kept {literal : Node} {literal' : Other} (fewer : g.Fewer convert literal other literal') :
      Pruned g convert names other (some literal) (some literal')
  | pulled {literal : Node} (mute : ∀ w, ¬ g.Tells convert names literal w) :
      Pruned g convert names other (some literal) none

/-- One block is left of another when nothing of use for an argument is taken away, neither from the block nor from
what is plugged into it. -/
structure Trimmed (g : BlockGraph Node) (convert : FieldValue → Option α) (names : List String) (node : Node)
    (other : BlockGraph Other) (b : Other) : Prop where
  fields : g.Fewer convert node other b
  inputs : ∀ slot ∈ names, g.Pruned convert names other (g.input? node slot) (other.input? b slot)

theorem direct?_eq_some_iff : g.direct? convert names node = some v ↔ First (g.reads? convert node) names v :=
  List.findSome?_eq_some_iff

theorem direct?_eq_none_iff :
    g.direct? convert names node = none ↔ ∀ name ∈ names, g.reads? convert node name = none :=
  List.findSome?_eq_none_iff

theorem literal?_eq_some_iff : g.literal? convert names node = some v ↔ g.Tells convert names node v := by
  rw [literal?, Option.or_eq_some_iff, direct?_eq_some_iff, direct?_eq_some_iff, direct?_eq_none_iff]
  constructor
  · rintro (wanted | ⟨silent, usual⟩)
    · exact .wanted wanted
    · exact .usual silent usual
  · rintro (wanted | ⟨silent, usual⟩)
    · exact .inl wanted
    · exact .inr ⟨silent, usual⟩

theorem literal?_eq_none_iff : g.literal? convert names node = none ↔ ∀ w, ¬ g.Tells convert names node w := by
  rw [Option.eq_none_iff_forall_ne_some]
  exact forall_congr' fun w => not_congr literal?_eq_some_iff

theorem resolve?_eq_some_iff : g.resolve? convert names node = some v ↔ g.Resolves convert names node v := by
  rw [resolve?, Option.or_eq_some_iff, direct?_eq_some_iff, direct?_eq_none_iff, List.findSome?_eq_some_iff]
  have mute {slot : String} : (g.input? node slot).bind (g.literal? convert names) = none ↔
      ∀ plug, g.input? node slot = some plug → ∀ w, ¬ g.Tells convert names plug w := by
    rw [Option.bind_eq_none_iff]
    exact forall_congr' fun plug => imp_congr_right fun _ => literal?_eq_none_iff
  constructor
  · rintro (own | ⟨silent, before, slot, after, order, found, earlier⟩)
    · exact .own own
    · obtain ⟨literal, plug, tells⟩ := Option.bind_eq_some_iff.mp found
      exact .plugged silent order plug (literal?_eq_some_iff.mp tells) fun slot inside => mute.mp (earlier slot inside)
  · rintro (own | ⟨silent, order, plug, tells, earlier⟩)
    · exact .inl own
    · refine .inr ⟨silent, _, _, _, order, ?_, fun slot inside => mute.mpr (earlier slot inside)⟩
      rw [plug]
      exact literal?_eq_some_iff.mpr tells

theorem Fewer.reads? (fewer : g.Fewer convert node other b) (name : String) :
    other.reads? convert b name = g.reads? convert node name := by
  rcases fewer name with same | ⟨gone, useless⟩
  · rw [BlockGraph.reads?, same, BlockGraph.reads?]
  · rw [BlockGraph.reads?, gone, useless, Option.bind_none]

theorem Fewer.direct? (fewer : g.Fewer convert node other b) (names : List String) :
    other.direct? convert names b = g.direct? convert names node :=
  congrArg names.findSome? (funext fewer.reads?)

theorem Pruned.literal? {plug : Option Node} {plug' : Option Other} (pruned : g.Pruned convert names other plug plug') :
    plug'.bind (other.literal? convert names) = plug.bind (g.literal? convert names) := by
  cases pruned with
  | empty => rfl
  | kept fewer =>
    rw [Option.bind_some, Option.bind_some, BlockGraph.literal?, BlockGraph.literal?, fewer.direct?, fewer.direct?]
  | pulled mute => exact (literal?_eq_none_iff.mpr mute).symm

theorem findSome?_congr {read read' : String → Option α} (same : ∀ name ∈ names, read name = read' name) :
    names.findSome? read = names.findSome? read' := by
  rw [← List.head?_filterMap, ← List.head?_filterMap, List.filterMap_congr same]

theorem Trimmed.resolve? (trimmed : g.Trimmed convert names node other b) :
    other.resolve? convert names b = g.resolve? convert names node := by
  rw [BlockGraph.resolve?, BlockGraph.resolve?, trimmed.fields.direct?]
  exact congrArg _ (findSome?_congr fun slot inside => (trimmed.inputs slot inside).literal?)

theorem First.exists_value (first : First (g.reads? convert node) names v) : ∃ value, convert value = some v := by
  obtain ⟨-, name, -, -, found, -⟩ := first
  obtain ⟨value, -, reads⟩ := Option.bind_eq_some_iff.mp found
  exact ⟨value, reads⟩

theorem Resolves.exists_value (resolves : g.Resolves convert names node v) : ∃ value, convert value = some v := by
  cases resolves with
  | own first => exact first.exists_value
  | plugged _ _ _ tells =>
    cases tells with
    | wanted first => exact first.exists_value
    | usual _ first => exact first.exists_value

theorem isFinite_number? {x : Float} (found : g.number? names node = some x) : x.isFinite := by
  obtain ⟨value, reads⟩ := (resolve?_eq_some_iff.mp found).exists_value
  exact FieldValue.isFinite_of_asNumber? reads

/-- Arguments, numbers and texts alike, are the first value that can be read in the first layer that has one. To
take away what cannot be read makes no difference to them, and numbers are finite. -/
theorem arguments_layered (g : BlockGraph Node) (names : List String) (node : Node) :
    ((∀ x, g.number? names node = some x ↔ g.Resolves FieldValue.asNumber? names node x) ∧
      ∀ s, g.text? names node = some s ↔ g.Resolves FieldValue.asText? names node s) ∧
    (∀ x, g.number? names node = some x → x.isFinite) ∧
    ∀ {Other : Type} (other : BlockGraph Other) (b : Other),
      (g.Trimmed FieldValue.asNumber? names node other b → other.number? names b = g.number? names node) ∧
      (g.Trimmed FieldValue.asText? names node other b → other.text? names b = g.text? names node) := by
  exact ⟨⟨fun x => resolve?_eq_some_iff, fun s => resolve?_eq_some_iff⟩, fun x => isFinite_number?,
    fun other b => ⟨Trimmed.resolve?, Trimmed.resolve?⟩⟩

/-- A text that is no number is taken from a block and a flag from the literal that counts, and a literal without
a number is pulled out. -/
theorem arguments_layered_pruned :
    let bare (fields : Entries Json.Value) : Workspace.Connection := .mk (some (.mk "number" ⟨"n"⟩ fields [] none)) none
    let whole : Workspace.Block := .mk "move" ⟨"m"⟩ [("STEPS", .string "oops")]
      [("NUM", bare [("N", .bool true), ("VALUE", .string "7")]), ("STEPS", bare [("TEXT", .string "few")])] none
    let rest : Workspace.Block := .mk "move" ⟨"m"⟩ [] [("NUM", bare [("VALUE", .string "7")])] none
    let g := (Workspace.mk []).graph
    g.Trimmed FieldValue.asNumber? Argument.steps.names whole g rest ∧
      g.number? Argument.steps.names rest = g.number? Argument.steps.names whole := by
  intro bare whole rest g
  have fields : g.Fewer FieldValue.asNumber? whole g rest := fun name => by
    by_cases same : "STEPS" = name
    · subst same
      exact .inr ⟨rfl, by decide⟩
    · exact .inl (by simp [g, whole, rest, Workspace.graph, Workspace.Block.fields, Entries.get?, same])
  have literal : g.Fewer FieldValue.asNumber? (.mk "number" ⟨"n"⟩ [("N", .bool true), ("VALUE", .string "7")] [] none)
      g (.mk "number" ⟨"n"⟩ [("VALUE", .string "7")] [] none) := fun name => by
    by_cases same : "N" = name
    · subst same
      exact .inr ⟨rfl, rfl⟩
    · exact .inl (by simp [g, Workspace.graph, Workspace.Block.fields, Entries.get?, same])
  have mute : ∀ w, ¬ g.Tells FieldValue.asNumber? Argument.steps.names
      (.mk "number" ⟨"n"⟩ [("TEXT", .string "few")] [] none) w := literal?_eq_none_iff.mp (by decide)
  have trimmed : g.Trimmed FieldValue.asNumber? Argument.steps.names whole g rest := by
    refine ⟨fields, ?_⟩
    simp only [Argument.steps, List.forall_mem_cons]
    exact ⟨.pulled mute, .empty, .kept literal, .empty, List.forall_mem_nil _⟩
  exact ⟨trimmed, ((arguments_layered g _ whole).2.2 g rest).1 trimmed⟩

end BlockPlay.BlockGraph

import BlockPlay.Compile.Basic
import BlockPlay.Compile.Preset
import BlockPlay.Graph.Arena
import BlockPlay.Graph.Workspace
import BlockPlay.Proofs.Compile.Layers

/-!
What a compilation consults of a graph: the first start at the top level, and from there on the name and
the kind of each block, its arguments, the block below it and its body. Two graphs with the same to see
there compile alike, also when they are of different kinds and have different cycles.
-/
namespace BlockPlay

/-- The names under which arguments are looked for, in the fields of a block and in its inputs. -/
def argumentNames : List String :=
  [Argument.steps, Argument.degrees, Argument.times, Argument.millis, Argument.seconds,
    Argument.genericWait, Argument.width].flatMap Argument.names ++ BlockGraph.colorFields

def bodyInputs : List String := ["DO", "SUBSTACK"]

namespace BlockGraph

variable {Node Other α : Type}

/-- Two blocks show a compilation the same. The blocks that hang on them only have to be related. -/
structure Alike (g : BlockGraph Node) (other : BlockGraph Other) (R : Node → Other → Prop)
    (a : Node) (b : Other) : Prop where
  id : g.id a = other.id b
  kind : g.kind a = other.kind b
  field : ∀ name ∈ argumentNames ++ literalFields, g.field? a name = other.field? b name
  next : Option.Rel R (g.next? a) (other.next? b)
  input : ∀ name ∈ bodyInputs ++ argumentNames, Option.Rel R (g.input? a name) (other.input? b name)

/-- Related blocks show a compilation the same, wherever it goes. -/
def Simulates (g : BlockGraph Node) (other : BlockGraph Other) (R : Node → Other → Prop) : Prop :=
  ∀ a b, R a b → g.Alike other R a b

/-- The blocks that a compilation can come to from a block on, those with literals included. -/
inductive Reaches (g : BlockGraph Node) (first : Node) : Node → Prop where
  | first : Reaches g first first
  | next {a b : Node} (before : Reaches g first a) (link : g.next? a = some b) : Reaches g first b
  | input {a b : Node} {name : String} (before : Reaches g first a)
      (known : name ∈ bodyInputs ++ argumentNames) (link : g.input? a name = some b) :
      Reaches g first b

variable {g : BlockGraph Node} {other : BlockGraph Other} {R : Node → Other → Prop} {a : Node}
  {b : Other}

theorem Alike.direct? (alike : g.Alike other R a b) (convert : FieldValue → Option α)
    {names : List String} (known : ∀ name ∈ names, name ∈ argumentNames ++ literalFields) :
    g.direct? convert names a = other.direct? convert names b :=
  findSome?_congr fun name inside => by rw [alike.field name (known name inside)]

theorem Alike.literal? (alike : g.Alike other R a b) (convert : FieldValue → Option α)
    {names : List String} (known : ∀ name ∈ names, name ∈ argumentNames) :
    g.literal? convert names a = other.literal? convert names b := by
  have wanted := alike.direct? convert fun name inside =>
    List.mem_append_left literalFields (known name inside)
  have plain := alike.direct? convert fun _ inside => List.mem_append_right argumentNames inside
  rw [BlockGraph.literal?, BlockGraph.literal?, wanted, plain]

theorem Simulates.plugged? (simulates : g.Simulates other R) (alike : g.Alike other R a b)
    (convert : FieldValue → Option α) {names : List String}
    (known : ∀ name ∈ names, name ∈ argumentNames) {slot : String} (wanted : slot ∈ names) :
    (g.input? a slot).bind (g.literal? convert names) =
      (other.input? b slot).bind (other.literal? convert names) := by
  have plugs := alike.input slot (List.mem_append_right bodyInputs (known slot wanted))
  cases left : g.input? a slot <;> cases right : other.input? b slot <;> rw [left, right] at plugs
  case none.none => rfl
  case some.some x y =>
    cases plugs with
    | some related => exact (simulates x y related).literal? convert known
  all_goals cases plugs

theorem Simulates.resolve? (simulates : g.Simulates other R) (alike : g.Alike other R a b)
    (convert : FieldValue → Option α) {names : List String}
    (known : ∀ name ∈ names, name ∈ argumentNames) :
    g.resolve? convert names a = other.resolve? convert names b := by
  have own := alike.direct? convert fun name inside =>
    List.mem_append_left literalFields (known name inside)
  have slots := findSome?_congr fun slot (wanted : slot ∈ names) => simulates.plugged? alike convert known wanted
  rw [BlockGraph.resolve?, BlockGraph.resolve?, own, slots]

theorem Simulates.read (simulates : g.Simulates other R) (alike : g.Alike other R a b)
    {argument : Argument} (known : ∀ name ∈ argument.names, name ∈ argumentNames) :
    argument.read g a = argument.read other b := by
  have same := simulates.resolve? alike FieldValue.asNumber? known
  rw [Argument.read, Argument.read, BlockGraph.number?, BlockGraph.number?, same]

theorem Simulates.waitMillis (simulates : g.Simulates other R) (alike : g.Alike other R a b) :
    g.waitMillis a = other.waitMillis b := by
  have millis := simulates.resolve? alike FieldValue.asNumber?
    (show ∀ name ∈ Argument.millis.names, name ∈ argumentNames by decide)
  have seconds := simulates.resolve? alike FieldValue.asNumber?
    (show ∀ name ∈ Argument.seconds.names, name ∈ argumentNames by decide)
  have unnamed := simulates.read alike
    (show ∀ name ∈ Argument.genericWait.names, name ∈ argumentNames by decide)
  simp only [BlockGraph.waitMillis, BlockGraph.number?, millis, seconds, unnamed]

theorem Simulates.action? (simulates : g.Simulates other R) (alike : g.Alike other R a b)
    (c : BlockClass) : g.action? a c = other.action? b c := by
  have steps := simulates.read alike
    (show ∀ name ∈ Argument.steps.names, name ∈ argumentNames by decide)
  have degrees := simulates.read alike
    (show ∀ name ∈ Argument.degrees.names, name ∈ argumentNames by decide)
  have width := simulates.read alike
    (show ∀ name ∈ Argument.width.names, name ∈ argumentNames by decide)
  have color := simulates.resolve? alike FieldValue.asText?
    (show ∀ name ∈ BlockGraph.colorFields, name ∈ argumentNames by decide)
  have wait := simulates.waitMillis alike
  cases c <;> simp only [BlockGraph.action?, BlockGraph.text?, steps, degrees, width, color, wait]

theorem Simulates.count (simulates : g.Simulates other R) (alike : g.Alike other R a b) :
    g.count a = other.count b := by
  have times := simulates.read alike
    (show ∀ name ∈ Argument.times.names, name ∈ argumentNames by decide)
  rw [BlockGraph.count, BlockGraph.count, times]

theorem Alike.body? (alike : g.Alike other R a b) : Option.Rel R (g.body? a) (other.body? b) := by
  have inner := alike.input "DO" (by decide)
  have stack := alike.input "SUBSTACK" (by decide)
  unfold BlockGraph.body?
  cases left : g.input? a "DO" <;> cases right : other.input? b "DO" <;> rw [left, right] at inner
  case none.none => exact stack
  case some.some => exact inner
  all_goals cases inner

end BlockGraph

namespace Compile

variable {Node Other : Type} {g : BlockGraph Node} {other : BlockGraph Other}
  {R : Node → Other → Prop}

/-- Chains that start at related blocks are walked alike, with the same budget left at the end. -/
theorem chain_of_simulates (simulates : g.Simulates other R) (config : Config) (budget depth : Nat)
    {first : Option Node} {again : Option Other} (related : Option.Rel R first again) :
    chain g config budget depth first = chain other config budget depth again := by
  -- What is left of the budget after a body is known only when it has been walked.
  induction budget using Nat.strongRecOn generalizing depth first again with
  | ind budget ih =>
    cases related with
    | none => rw [chain, chain]
    | some same =>
      cases budget with
      | zero => rw [chain, chain]
      | succ left =>
        have alike := simulates _ _ same
        have acts := simulates.action? alike
        have inner := ih left (Nat.lt_succ_self left) (depth + 1) alike.body?
        have later (n : Nat) (le : n ≤ left) := ih n (Nat.lt_succ_of_le le) depth alike.next
        rw [chain, chain, alike.kind, alike.id, simulates.count alike]
        cases config.classify (other.kind _) with
        | none => rfl
        | some c =>
          simp only [acts]
          cases other.action? _ c with
          | some action => simp only [later left (Nat.le_refl left)]
          | none =>
            have ops := congrArg Walk.ops inner
            have rest := congrArg Walk.left inner
            have cut := congrArg Walk.truncated inner
            simp only
            split
            next deep => rfl
            next shallow =>
              rw [ops]
              cases (chain other config left (depth + 1) _).ops with
              | error e => simp only [rest, cut]
              | ok body =>
                simp only [Walk.mk.injEq, cut]
                rw [later _ (Walk.left_le _), rest]
                exact ⟨rfl, rfl, rfl⟩

/-- A compilation depends on nothing but what it consults. Graphs whose first starts are related, where
related blocks show it the same, compile to the same program or fail with the same error, and are cut off
alike. A graph that is edited somewhere else, off the way from the start, compiles as before. -/
theorem compile_sees_consulted (g : BlockGraph Node) (other : BlockGraph Other) (compiler : Compiler) :
    (∀ R : Node → Other → Prop, g.Simulates other R →
      Option.Rel R (Compiler.start? compiler.config g) (Compiler.start? compiler.config other) →
      compiler.compile g = compiler.compile other) ∧
    ∀ edited : BlockGraph Node, Compiler.start? compiler.config g = Compiler.start? compiler.config edited →
      (∀ start node, Compiler.start? compiler.config g = some start → g.Reaches start node →
        g.Alike edited Eq node node) →
      compiler.compile g = compiler.compile edited := by
  have simulated {Other : Type} {other : BlockGraph Other} (R : Node → Other → Prop)
      (simulates : g.Simulates other R)
      (starts : Option.Rel R (Compiler.start? compiler.config g) (Compiler.start? compiler.config other)) :
      compiler.compile g = compiler.compile other := by
    have walks := chain_of_simulates simulates compiler.config compiler.config.maxBlocks 0 starts
    simp only [Compiler.compile]
    generalize Compiler.start? compiler.config g = first at starts walks
    generalize Compiler.start? compiler.config other = again at starts walks
    cases starts with
    | none => rfl
    | some same => simp only [walks]
  refine ⟨simulated, fun edited same alike => ?_⟩
  cases found : Compiler.start? compiler.config g with
  | none => simp only [Compiler.compile, found, ← same]
  | some start =>
    have kept {links again : Option Node} (equal : Option.Rel Eq links again)
        (reached : ∀ b, links = some b → g.Reaches start b) :
        Option.Rel (fun a b => a = b ∧ g.Reaches start a) links again := by
      cases equal with
      | none => exact .none
      | some equal => exact .some ⟨equal, reached _ rfl⟩
    -- The blocks that the compilation can come to are related to themselves, and to nothing else.
    refine simulated (fun a b => a = b ∧ g.Reaches start a) ?_ ?_
    · rintro a _ ⟨rfl, reached⟩
      have equal := alike start a found reached
      refine ⟨equal.id, equal.kind, equal.field, ?_, fun name known => ?_⟩
      · exact kept equal.next fun b link => .next reached link
      · exact kept (equal.input name known) fun b link => .input reached known link
    · rw [← same, found]
      exact .some ⟨rfl, .first⟩

/-- A start above a move whose steps are plugged in, with nothing else around. -/
def bare : Arena where
  blocks := #[⟨⟨"go"⟩, "when_run", some ⟨1⟩, [], []⟩,
    ⟨⟨"walk"⟩, "move_forward", none, [("STEPS", ⟨2⟩)], []⟩,
    ⟨⟨"three"⟩, "number", none, [], [("NUM", .text "3")]⟩]
  top := [⟨0⟩]

def annotatedThree : Workspace.Block := .mk "number" ⟨"three"⟩ [("NUM", .string "3")] [] none

def annotatedMove : Workspace.Block :=
  .mk "move_forward" ⟨"walk"⟩ [("NOTE", .string "slowly")] [("STEPS", .mk none (some annotatedThree))] none

def annotatedStart : Workspace.Block :=
  .mk "when_run" ⟨"go"⟩ [] [] (some (.mk (some annotatedMove) none))

/-- The same blocks with a note on the move, and other stacks beside them. -/
def annotated : Workspace := ⟨[annotatedThree, annotatedStart, annotatedMove]⟩

/-- Each block of the arena stands for one of the workspace. -/
def StandsFor (a : Arena.Block) (b : Workspace.Block) : Prop :=
  (a, b) ∈ bare.blocks.toList.zip [annotatedStart, annotatedMove, annotatedThree]

theorem simulates_standsFor : bare.graph.Simulates annotated.graph StandsFor := by
  intro a b related
  simp only [StandsFor, bare, List.zip_cons_cons, List.zip_nil_right, List.mem_cons, Prod.mk.injEq,
    List.not_mem_nil, or_false] at related
  rcases related with ⟨rfl, rfl⟩ | ⟨rfl, rfl⟩ | ⟨rfl, rfl⟩
  · exact ⟨rfl, rfl, by decide, .some (.tail _ (.head _)), fun _ _ => .none⟩
  · refine ⟨rfl, rfl, by decide, .none, fun name _ => ?_⟩
    by_cases steps : name = "STEPS"
    · subst steps
      exact .some (.tail _ (.tail _ (.head _)))
    · have absent {α : Type} (a : α) : Entries.get? name [("STEPS", a)] = none := by
        simp [Entries.get?, Ne.symm steps]
      simp only [Arena.graph, Workspace.graph, annotatedMove, Workspace.Block.inputs, absent]
      exact .none
  · exact ⟨rfl, rfl, by decide, .none, fun _ _ => .none⟩

theorem start?_standsFor : Option.Rel StandsFor (Compiler.start? Preset.maze bare.graph)
    (Compiler.start? Preset.maze annotated.graph) :=
  .some (.head _)

/-- The graph of the arena with a note on every block, and one stack more. -/
def noted : BlockGraph Arena.Block :=
  { bare.graph with
    top := bare.graph.top ++ bare.blocks.toList
    field? b name := if name = "NOTE" then some (.text "slowly") else bare.graph.field? b name }

theorem alike_noted (a : Arena.Block) : bare.graph.Alike noted Eq a a := by
  have equal : ∀ links : Option Arena.Block, Option.Rel Eq links links
    | none => .none
    | some _ => .some rfl
  refine ⟨rfl, rfl, fun name known => ?_, equal _, fun name _ => equal _⟩
  have other : name ≠ "NOTE" := by
    rintro rfl
    revert known
    decide
  simp only [noted, if_neg other]

theorem compile_sees_consulted_bare :
    bare.graph.Simulates annotated.graph StandsFor ∧
    Option.Rel StandsFor (Compiler.start? Preset.maze bare.graph)
      (Compiler.start? Preset.maze annotated.graph) ∧
    (⟨Preset.maze, 7, true⟩ : Compiler).compile bare.graph =
      (⟨Preset.maze, 7, true⟩ : Compiler).compile annotated.graph ∧
    Compiler.start? Preset.maze bare.graph = Compiler.start? Preset.maze noted ∧
    (∀ a, bare.graph.Alike noted Eq a a) ∧
    (⟨Preset.maze, 7, true⟩ : Compiler).compile bare.graph =
      (⟨Preset.maze, 7, true⟩ : Compiler).compile noted := by
  have starts : Compiler.start? Preset.maze bare.graph = Compiler.start? Preset.maze noted := rfl
  obtain ⟨simulated, -⟩ :=
    compile_sees_consulted bare.graph annotated.graph ⟨Preset.maze, 7, true⟩
  obtain ⟨-, edited⟩ := compile_sees_consulted bare.graph noted ⟨Preset.maze, 7, true⟩
  exact ⟨simulates_standsFor, start?_standsFor, simulated StandsFor simulates_standsFor start?_standsFor,
    starts, alike_noted, edited noted starts fun _ a _ _ => alike_noted a⟩

end Compile

end BlockPlay

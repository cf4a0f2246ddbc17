import BlockPlay.Compile.Preset
import BlockPlay.Proofs.Compile.Offence
import BlockPlay.Proofs.Grid.Turn
import BlockPlay.Proofs.Run.Objection

/-!
Compiled programs on the games that they are compiled for. The classes of a configuration lead to the
instructions that its game has, so that a game has only the numbers of an instruction to object to.
-/
namespace BlockPlay

theorem Config.mem_of_classify {config : Config} {tag : String} {c : BlockClass}
    (known : config.classify tag = some c) : c ∈ config.classes.map Prod.fst := by
  obtain ⟨entry, found, rfl⟩ := Option.map_eq_some_iff.mp known
  exact List.mem_map_of_mem (List.mem_of_find?_eq_some found)

/-- A leaf that a compiled program runs is what some block of a known class does. -/
theorem Compile.exists_action?_of_mem_unrolls {Node : Type} {g : BlockGraph Node} {config : Config}
    {p : Program} (compiled : compile config g = .ok p) {op : Op} (present : op ∈ Op.unrolls p.ops) :
    ∃ node c action, c ∈ config.classes.map Prod.fst ∧ g.action? node c = some action ∧
      op = .leaf (g.id node) action := by
  have made : ((Compiler.new config).compile g).1 = .ok p := compiled
  obtain ⟨start, -, made, fine⟩ := compiled_lines made
  obtain ⟨level, line⟩ := Op.mem_outlines_of_mem_unrolls present 0
  obtain ⟨v, stands, -⟩ := sound_line made fine line
  simp only [line?, op?, Option.map_map, Option.map_eq_some_iff, Function.comp, Prod.mk.injEq] at stands
  obtain ⟨c, known, -, rfl⟩ := stands
  cases does : g.action? v.node c with
  | some action => exact ⟨v.node, c, action, Config.mem_of_classify known, does, rfl⟩
  | none =>
    have leaf := Op.isLeaf_of_mem_unrolls present
    rw [does] at leaf
    cases leaf

/-- The validator has looked at each leaf that runs. -/
theorem Limits.checkLeaf_of_mem_unrolls {limits : Limits} {p : Program} (valid : limits.validate p = .ok ())
    {block : BlockId} {action : Action} (present : .leaf block action ∈ Op.unrolls p.ops) :
    action = .start ∨ checkLeaf block action = .ok () := by
  obtain ⟨level, line⟩ := Op.mem_outlines_of_mem_unrolls present 0
  obtain ⟨k, here⟩ := List.mem_iff_getElem?.mp line
  have fine := offenceAt?_eq_none_iff.mpr fun e => (clean_of_validate valid).2 k _ e here
  rw [offenceAt?] at fine
  split at fine
  next first =>
    refine .inl ?_
    cases action <;> first | rfl | cases first.2
  next =>
    refine .inr ?_
    simp only [offence?] at fine
    split at fine
    next passed => exact passed
    next => cases fine

/-- The game objects to nothing in an instruction but a turn that is not between its headings. -/
def Steers {σ : Type} (game : Game σ) (op : Op) : Prop :=
  ∀ state fault, (game.apply op state).result = .error fault → ∃ block direction degrees,
    op = .leaf block (.turn direction degrees) ∧ fault = Heading.noTurn degrees ∧ ¬ Heading.Square degrees

/-- The game objects to nothing in an instruction but a width that a line cannot have. -/
def Paints {σ : Type} (game : Game σ) (op : Op) : Prop :=
  ∀ state fault, (game.apply op state).result = .error fault → ∃ block width,
    op = .leaf block (.width width) ∧ fault = Canvas.noWidth width ∧ ¬ (width.isFinite && 0 < width)

/-- The instructions that a maze has. -/
def Maze.has : Op → Bool
  | .leaf _ .start | .leaf _ (.move _) | .leaf _ (.turn ..) | .leaf _ (.wait _) => true
  | _ => false

/-- The instructions that a farm has. -/
def Farm.has : Op → Bool
  | .leaf _ .start | .leaf _ (.move _) | .leaf _ (.turn ..) | .leaf _ (.wait _) | .leaf _ .collect
  | .leaf _ .plant | .leaf _ .water | .leaf _ .harvest => true
  | _ => false

/-- The instructions that a canvas has. -/
def Canvas.has : Op → Bool
  | .leaf _ .start | .leaf _ (.move _) | .leaf _ (.turn ..) | .leaf _ (.wait _) | .leaf _ (.pen _)
  | .leaf _ (.color _) | .leaf _ (.width _) => true
  | _ => false

section Games

variable {op : Op} (pace : Pace)

theorem Maze.steers (m : Maze) (known : has op) : Steers (m.game pace) op := by
  intro state fault refused
  simp only [game, apply] at refused
  split at refused
  case h_3 block direction degrees =>
    split at refused
    next => cases refused
    next none =>
      cases refused
      exact ⟨block, direction, degrees, rfl, rfl, Heading.not_square_of_turn? none⟩
  case h_5 => simp [has] at known
  all_goals cases refused

theorem Farm.steers (f : Farm) (known : has op) : Steers (f.game pace) op := by
  intro state fault refused
  simp only [game, apply] at refused
  split at refused
  case h_3 block direction degrees =>
    split at refused
    next => cases refused
    next none =>
      cases refused
      exact ⟨block, direction, degrees, rfl, rfl, Heading.not_square_of_turn? none⟩
  case h_5 | h_6 | h_7 | h_8 => exact (f.result_work_ne pace _ _ _ _ refused).elim
  case h_9 => simp [has] at known
  all_goals cases refused

theorem Canvas.paints (c : Canvas) (known : has op) : Paints (c.game pace) op := by
  intro state fault refused
  simp only [game, apply] at refused
  split at refused
  case h_2 => split at refused <;> cases refused
  case h_7 block width =>
    split at refused
    next => cases refused
    next bad =>
      cases refused
      exact ⟨block, width, rfl, rfl, bad⟩
  case h_8 => simp [has] at known
  all_goals cases refused

end Games

section Presets

variable {Node : Type} {g : BlockGraph Node} {p : Program} {op : Op}

theorem Preset.maze_has (compiled : compile maze g = .ok p) (present : op ∈ Op.unrolls p.ops) :
    Maze.has op := by
  have classes : maze.classes.map Prod.fst =
    [.start, .move, .back, .turnLeft, .turnRight, .loop, .wait] := by decide
  obtain ⟨node, c, action, known, does, rfl⟩ := Compile.exists_action?_of_mem_unrolls compiled present
  simp only [classes, List.mem_cons, List.not_mem_nil, or_false] at known
  rcases known with rfl | rfl | rfl | rfl | rfl | rfl | rfl <;> cases does <;> rfl

theorem Preset.farm_has (compiled : compile farm g = .ok p) (present : op ∈ Op.unrolls p.ops) :
    Farm.has op := by
  have classes : farm.classes.map Prod.fst =
    [.start, .move, .back, .turnLeft, .turnRight, .loop, .wait, .collect, .plant, .water, .harvest] := by
    decide
  obtain ⟨node, c, action, known, does, rfl⟩ := Compile.exists_action?_of_mem_unrolls compiled present
  simp only [classes, List.mem_cons, List.not_mem_nil, or_false] at known
  rcases known with rfl | rfl | rfl | rfl | rfl | rfl | rfl | rfl | rfl | rfl | rfl <;> cases does <;> rfl

theorem Preset.artist_has (compiled : compile artist g = .ok p) (present : op ∈ Op.unrolls p.ops) :
    Canvas.has op := by
  have classes : artist.classes.map Prod.fst =
    [.start, .move, .back, .turnLeft, .turnRight, .loop, .wait, .penUp, .penDown, .color, .width] := by
    decide
  obtain ⟨node, c, action, known, does, rfl⟩ := Compile.exists_action?_of_mem_unrolls compiled present
  simp only [classes, List.mem_cons, List.not_mem_nil, or_false] at known
  rcases known with rfl | rfl | rfl | rfl | rfl | rfl | rfl | rfl | rfl | rfl | rfl <;> cases does <;> rfl

end Presets

theorem Fault.unsupported_ne_noTurn (op : Op) (degrees : Float) :
    unsupported op ≠ Heading.noTurn degrees := by
  intro same
  have texts := congrArg (·.toList.head?) (Fault.refused.inj same)
  simp [toString] at texts

theorem Fault.unsupported_ne_noWidth (op : Op) (width : Float) :
    unsupported op ≠ Canvas.noWidth width := by
  intro same
  have texts := congrArg (·.toList.head?) (Fault.refused.inj same)
  simp [toString] at texts

namespace Session

variable {σ : Type} {game : Game σ} {limit : Nat} {stop : Nat → Nat → Bool} {ops : List Op} {state : σ}

/-- No loop has been handed to the game, and nothing that it does not have ends the run. -/
def Served (s : Session σ) : Prop :=
  (∀ op ∈ s.applied, op.isLeaf) ∧
    ∀ block m op, s.ending? = some (.failed (.step block m)) → Fault.unsupported op ≠ .refused m

/-- If the game has refused anything, then it was a turn that is not a multiple of 90 degrees. -/
def Squared (s : Session σ) : Prop :=
  ∀ block m, s.ending? = some (.failed (.step block m)) → ∃ direction degrees,
    s.applied.getLast? = some (.leaf block (.turn direction degrees)) ∧ ¬ Heading.Square degrees

theorem isLeaf_of_applied {op : Op} (given : op ∈ ((new ops state).run game limit stop).applied) :
    op.isLeaf := by
  have applied : ((new ops state).run game limit stop).applied = _ := (run_meets_start ops state).2.2.2
  rw [applied] at given
  exact Op.isLeaf_of_mem_unrolls (List.mem_of_mem_take given)

theorem run_steers (steers : ∀ op ∈ Op.unrolls ops, Steers game op) :
    ((new ops state).run game limit stop).Served ∧ ((new ops state).run game limit stop).Squared := by
  have turn {block : BlockId} {m : String}
      (ended : ((new ops state).run game limit stop).ending? = some (.failed (.step block m))) :
      ∃ direction degrees, .refused m = Heading.noTurn degrees ∧
        ((new ops state).run game limit stop).applied.getLast? =
          some (.leaf block (.turn direction degrees)) ∧ ¬ Heading.Square degrees := by
    obtain ⟨before, op, after, leaves, rfl, applied, -, refused, -⟩ := run_refused ended
    have present : op ∈ Op.unrolls ops := by simp [leaves]
    obtain ⟨block, direction, degrees, rfl, same, crooked⟩ := steers op present _ _ refused
    exact ⟨direction, degrees, same, by rw [applied, List.getLast?_concat]; rfl, crooked⟩
  refine ⟨⟨fun op given => isLeaf_of_applied given, fun block m op ended => ?_⟩, fun block m ended => ?_⟩
  · obtain ⟨direction, degrees, same, -⟩ := turn ended
    rw [same]
    exact Fault.unsupported_ne_noTurn op degrees
  · obtain ⟨direction, degrees, -, last⟩ := turn ended
    exact ⟨direction, degrees, last⟩

theorem run_paints (paints : ∀ op ∈ Op.unrolls ops, Paints game op) :
    ((new ops state).run game limit stop).Served ∧
      (validate ⟨ops⟩ = .ok () → ∀ block m,
        ((new ops state).run game limit stop).ending? ≠ some (.failed (.step block m))) := by
  have line {block : BlockId} {m : String}
      (ended : ((new ops state).run game limit stop).ending? = some (.failed (.step block m))) :
      ∃ block width, .leaf block (.width width) ∈ Op.unrolls ops ∧ .refused m = Canvas.noWidth width ∧
        ¬ (width.isFinite && 0 < width) := by
    obtain ⟨before, op, after, leaves, -, -, -, refused, -⟩ := run_refused ended
    have present : op ∈ Op.unrolls ops := by simp [leaves]
    obtain ⟨block, width, rfl, same, bad⟩ := paints op present _ _ refused
    exact ⟨block, width, present, same, bad⟩
  refine ⟨⟨fun op given => isLeaf_of_applied given, fun block m op ended => ?_⟩,
    fun valid block m ended => ?_⟩
  · obtain ⟨-, width, -, same, -⟩ := line ended
    rw [same]
    exact Fault.unsupported_ne_noWidth op width
  · obtain ⟨block, width, present, -, bad⟩ := line ended
    rcases Limits.checkLeaf_of_mem_unrolls valid present with start | passed
    · cases start
    · simp only [Limits.checkLeaf] at passed
      split at passed
      next => cases passed
      next fine =>
        obtain ⟨finite, positive⟩ : width.isFinite ∧ ¬ width ≤ 0 := by simpa using fine
        refine bad ?_
        simp [finite, Decimal.pos_of_not_le finite positive]

end Session

/-- A program that has been compiled for a game is served by it on every level: no loop reaches the game,
and nothing that the game does not have. A maze or a farm refuses nothing but a turn that is not a multiple
of 90 degrees, and a canvas nothing that the validator has passed. -/
theorem run_of_preset {Node : Type} (g : BlockGraph Node) (p : Program) (pace : Pace) (limit : Nat)
    (stop : Nat → Nat → Bool) :
    (compile Preset.maze g = .ok p → ∀ (m : Maze) (state : Maze.State),
      let last := (Session.new p.ops state).run (m.game pace) limit stop
      last.Served ∧ last.Squared) ∧
    (compile Preset.farm g = .ok p → ∀ (f : Farm) (state : Farm.State),
      let last := (Session.new p.ops state).run (f.game pace) limit stop
      last.Served ∧ last.Squared) ∧
    (compile Preset.artist g = .ok p → ∀ (c : Canvas) (state : Drawing),
      let last := (Session.new p.ops state).run (c.game pace) limit stop
      last.Served ∧ (validate p = .ok () → ∀ block m,
        last.ending? ≠ some (.failed (.step block m)))) := by
  refine ⟨fun compiled m state => ?_, fun compiled f state => ?_, fun compiled c state => ?_⟩
  · exact Session.run_steers fun op present => m.steers pace (Preset.maze_has compiled present)
  · exact Session.run_steers fun op present => f.steers pace (Preset.farm_has compiled present)
  · exact Session.run_paints fun op present => c.paints pace (Preset.artist_has compiled present)

/-- A start block above a turn by half a quarter. -/
def crooked : BlockGraph String where
  top := ["when_run"]
  id kind := ⟨kind⟩
  kind kind := kind
  next? kind := if kind = "when_run" then some "turn_left" else none
  input? _ _ := none
  field? kind name := if kind = "turn_left" ∧ name = "DEGREES" then some (.number 45) else none

theorem compile_crooked {config : Config} (start : config.classify "when_run" = some .start)
    (turn : config.classify "turn_left" = some .turnLeft) (enough : config.maxBlocks = 500) :
    compile config crooked =
      .ok ⟨[.leaf ⟨"when_run"⟩ .start, .leaf ⟨"turn_left"⟩ (.turn .left 45)]⟩ := by
  obtain ⟨classes, budget, depth⟩ := config
  obtain rfl : budget = 500 := enough
  have found : Compiler.start? ⟨classes, 500, depth⟩ crooked = some "when_run" := by
    simp [Compiler.start?, crooked, start]
  have next : crooked.next? "when_run" = some "turn_left" := by decide
  have last : crooked.next? "turn_left" = none := by decide
  have degrees : Argument.degrees.read crooked "turn_left" = 45 := rfl
  simp only [compile, Compiler.compile, Compiler.new, found]
  rw [Compile.chain]
  simp only [show crooked.kind "when_run" = "when_run" from rfl, start, BlockGraph.action?, next]
  rw [Compile.chain]
  simp only [show crooked.kind "turn_left" = "turn_left" from rfl, turn, BlockGraph.action?, degrees, last]
  rw [Compile.chain]
  rfl

theorem run_of_preset_crooked :
    let p : Program := ⟨[.leaf ⟨"when_run"⟩ .start, .leaf ⟨"turn_left"⟩ (.turn .left 45)]⟩
    let maze : Maze := ⟨⟨[['S', 'G']], .origin⟩, .east⟩
    let farm : Farm := ⟨⟨[['S', '*']], .origin⟩, .east, ⟨1, 0⟩⟩
    let canvas : Canvas := ⟨10, 10, .origin, 90, 1, []⟩
    compile Preset.maze crooked = .ok p ∧ compile Preset.farm crooked = .ok p ∧
      compile Preset.artist crooked = .ok p ∧ validate p = .ok () ∧
      ((Session.new p.ops .blank).run (maze.game .instant) 5 fun _ _ => false).Squared ∧
      ((Session.new p.ops .blank).run (farm.game .instant) 5 fun _ _ => false).Squared ∧
      ((Session.new p.ops .blank).run (canvas.game .instant) 5 fun _ _ => false).ending? ≠
        some (.failed (.step ⟨"turn_left"⟩ "invalid pen width 0")) := by
  intro p maze farm canvas
  have onMaze : compile Preset.maze crooked = .ok p := compile_crooked (by decide) (by decide) rfl
  have onFarm : compile Preset.farm crooked = .ok p := compile_crooked (by decide) (by decide) rfl
  have onCanvas : compile Preset.artist crooked = .ok p := compile_crooked (by decide) (by decide) rfl
  have valid : validate p = .ok () := rfl
  obtain ⟨mazes, farms, canvases⟩ := run_of_preset crooked p .instant 5 fun _ _ => false
  exact ⟨onMaze, onFarm, onCanvas, valid, (mazes onMaze maze .blank).2, (farms onFarm farm .blank).2,
    (canvases onCanvas canvas .blank).2 valid ⟨"turn_left"⟩ "invalid pen width 0"⟩

end BlockPlay

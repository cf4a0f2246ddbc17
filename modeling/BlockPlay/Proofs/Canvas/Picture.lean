import BlockPlay.Canvas.Drawing
import BlockPlay.Proofs.Run.Course

/-!
Runs on a canvas. Strokes are only ever added, and only by moves with the pen down, so a picture that was
incomplete before an instruction can be completed by such a move alone.
-/
namespace BlockPlay

namespace Point

/-- The coordinates of two places differ by less than a millionth. -/
def Near (p q : Point) : Prop := (p.x - q.x).abs < epsilon ∧ (p.y - q.y).abs < epsilon

end Point

/-- A stroke has the ends of a line, in one direction or in the other. -/
def Stroke.Traces (s : Stroke) (l : Line) : Prop :=
  l.source.Near s.source ∧ l.target.Near s.target ∨ l.source.Near s.target ∧ l.target.Near s.source

theorem Drawing.hasDrawn_iff (d : Drawing) (l : Line) :
    d.hasDrawn l ↔ ∃ s ∈ d.strokes, s.Traces l := by
  simp [hasDrawn, Line.agrees, Point.near, Stroke.Traces, Point.Near, List.any_eq_true]

namespace Canvas

/-- There is a target, and each line of it is traced by a single stroke. -/
def Complete (c : Canvas) (d : Drawing) : Prop :=
  c.target ≠ [] ∧ ∀ l ∈ c.target, ∃ s ∈ d.strokes, s.Traces l

theorem isComplete_iff (c : Canvas) (d : Drawing) : c.isComplete d ↔ c.Complete d := by
  simp [isComplete, Complete, Drawing.hasDrawn_iff]

theorem complete_congr {c : Canvas} {d next : Drawing} (same : next.strokes = d.strokes) :
    c.Complete next ↔ c.Complete d := by
  rw [Complete, Complete, same]

/-- A move with the pen down that leaves its place and stays on the canvas. -/
def Strikes (c : Canvas) (op : Op) (d : Drawing) : Prop :=
  ∃ block steps, op = .leaf block (.move steps) ∧ steps ≠ 0 ∧ d.penDown ∧ c.contains (c.ahead d steps)

/-- What the game says when it looks at the picture. -/
def verdict (c : Canvas) (d : Drawing) : Outcome :=
  if c.isComplete d then .won "the picture is complete" else .ongoing

theorem verdict_eq_won_iff {c : Canvas} {d : Drawing} {message : String} :
    c.verdict d = .won message ↔ c.Complete d ∧ message = "the picture is complete" := by
  rw [← isComplete_iff, verdict]
  split
  next complete => simp [complete, eq_comm]
  next incomplete => simp [incomplete]

/-- What an instruction can do. It passes without a look at the picture; or the game looks at the strokes
that there were before; or the instruction adds a stroke, and then the game looks. -/
inductive Applied (c : Canvas) (op : Op) (d : Drawing) : Except Fault Outcome → Drawing → Prop
  | passes {result : Except Fault Outcome} (quiet : ∀ message, result ≠ .ok (.won message)) :
      Applied c op d result d
  | looks {next : Drawing} (same : next.strokes = d.strokes) : Applied c op d (.ok (c.verdict next)) next
  | strikes {next : Drawing} (strikes : c.Strikes op d)
      (adds : next.strokes = ⟨d.position, next.position, d.color, d.width⟩ :: d.strokes) :
      Applied c op d (.ok (c.verdict next)) next

theorem applied (c : Canvas) (pace : Pace) (op : Op) (d : Drawing) :
    c.Applied op d (c.apply pace op d).result (c.apply pace op d).state := by
  cases op with
  | loop block count body => exact .passes nofun
  | leaf block action =>
    cases action with
    | move steps =>
      rw [apply]
      split
      next inside =>
        by_cases draws : d.penDown && steps != 0
        · have strikes : c.Strikes (.leaf block (.move steps)) d := by
            rw [Bool.and_eq_true, bne_iff_ne] at draws
            exact ⟨block, steps, rfl, draws.2, draws.1, inside⟩
          exact .strikes strikes (if_pos draws)
        · exact .looks (if_neg draws)
      next => exact .passes nofun
    | turn direction degrees => exact .looks rfl
    | wait millis => exact .looks rfl
    | pen down => exact .looks rfl
    | color color => exact .looks rfl
    | width width =>
      rw [apply]
      split
      next => exact .looks rfl
      next => exact .passes nofun
    | _ => exact .passes nofun

namespace Applied

variable {c : Canvas} {op : Op} {d next : Drawing} {result : Except Fault Outcome}

/-- No stroke is ever taken back. -/
theorem keeps_strokes (applied : c.Applied op d result next) : d.strokes <:+ next.strokes := by
  cases applied with
  | passes => exact List.suffix_rfl
  | looks same => exact same ▸ List.suffix_rfl
  | strikes _ adds =>
    rw [adds]
    exact List.suffix_cons ..

/-- Only a stroke can complete a picture. -/
theorem strikes_of_complete (applied : c.Applied op d result next) (incomplete : ¬ c.Complete d)
    (complete : c.Complete next) : c.Strikes op d := by
  cases applied with
  | passes => exact absurd complete incomplete
  | looks same => exact absurd ((complete_congr same).mp complete) incomplete
  | strikes strikes => exact strikes

theorem won_iff (applied : c.Applied op d result next) (incomplete : ¬ c.Complete d) {message : String} :
    result = .ok (.won message) ↔ c.Complete next ∧ message = "the picture is complete" := by
  cases applied with
  | passes quiet =>
    refine ⟨fun won => absurd won (quiet message), fun complete => ?_⟩
    exact absurd complete.1 incomplete
  | looks | strikes => rw [Except.ok.injEq, verdict_eq_won_iff]

end Applied

open Session

variable {c : Canvas} {pace : Pace} {leaves : List Op}

/-- The state in which a run has taken so many leaves. -/
def after (c : Canvas) (pace : Pace) (leaves : List Op) (k : Nat) : Drawing :=
  stateAfter (c.game pace) leaves c.initial k

theorem applied_after {k : Nat} {op : Op} (leaf : leaves[k]? = some op) :
    c.Applied op (c.after pace leaves k) (c.apply pace op (c.after pace leaves k)).result
      (c.after pace leaves (k + 1)) := by
  have next : c.after pace leaves (k + 1) = (c.apply pace op (c.after pace leaves k)).state :=
    stateAfter_succ leaf
  rw [next]
  exact c.applied pace op _

theorem carried_strokes (ops : List Op) (d : Drawing) :
    d.strokes <:+ (carried (c.game pace) ops d).strokes := by
  have keeps (op : Op) (next : Drawing) (there : d.strokes <:+ next.strokes) :
      d.strokes <:+ (c.apply pace op next).state.strokes := there.trans (c.applied pace op next).keeps_strokes
  exact @carried_keeps _ (c.game pace) (fun next => d.strokes <:+ next.strokes) keeps ops d List.suffix_rfl

theorem not_complete_initial : ¬ c.Complete c.initial := by
  rintro ⟨some, covered⟩
  obtain ⟨l, asked⟩ := List.exists_mem_of_ne_nil _ some
  obtain ⟨s, drawn, -⟩ := covered l asked
  cases drawn

/-- The story of a run on a canvas that nobody asks to stop: its strokes stay, the picture is incomplete
before each leaf, and it is a stroke that completes the picture, which wins. -/
structure Sitting (c : Canvas) (pace : Pace) (limit : Nat) (leaves : List Op) (last : Session Drawing) : Prop
    extends Played (c.game pace) limit leaves c.initial last where
  strokes : ∀ j k, (c.after pace leaves j).strokes <:+ (c.after pace leaves (j + k)).strokes
  incomplete : ∀ k < last.steps, ¬ c.Complete (c.after pace leaves k)
  wins : ∀ k < last.steps, c.Complete (c.after pace leaves (k + 1)) →
    last.steps = k + 1 ∧ last.ending? = some (.completed (.won "the picture is complete"))
  won : ∀ message, last.ending? = some (.completed (.won message)) →
    message = "the picture is complete" ∧ ∃ k op, last.steps = k + 1 ∧ leaves[k]? = some op ∧
      c.Strikes op (c.after pace leaves k) ∧ c.Complete (c.after pace leaves (k + 1))
  untargeted : c.target = [] → ∀ message, last.ending? ≠ some (.completed (.won message))

/-- Every program makes such a sitting on every canvas, whatever was drawn before. -/
theorem run_sitting (c : Canvas) (pace : Pace) (limit : Nat) (ops : List Op) (d : Drawing) :
    c.Sitting pace limit (Op.unrolls ops)
      ((Session.new ops d).run (c.game pace) limit fun _ _ => false) := by
  generalize ran : (Session.new ops d).run (c.game pace) limit (fun _ _ => false) = last
  obtain ⟨played, ending, ended, course⟩ := run_played (c.game pace) limit ops d rfl ran.symm
  -- A leaf that completes the picture wins, so the run does not get to another one.
  have before {k : Nat} (started : k < last.steps) : ¬ c.Complete (c.after pace (Op.unrolls ops) k) := by
    refine course.holds_before (fun d => ¬ c.Complete d) not_complete_initial
      (fun op d ongoing incomplete complete => ?_) started
    have won := ((c.applied pace op d).won_iff incomplete).mpr ⟨complete, rfl⟩
    cases ongoing.symm.trans won
  have winner {message : String} (won : last.ending? = some (.completed (.won message))) :
      message = "the picture is complete" ∧ ∃ k op, last.steps = k + 1 ∧ (Op.unrolls ops)[k]? = some op ∧
        c.Strikes op (c.after pace (Op.unrolls ops) k) ∧ c.Complete (c.after pace (Op.unrolls ops) (k + 1)) := by
    obtain ⟨k, op, (steps : last.steps = k + 1), leaf, result⟩ :=
      course.won (Option.some.inj (ended.symm.trans won))
    have started : k < last.steps := steps ▸ Nat.lt_succ_self k
    have applied : c.Applied op _ (c.apply pace op _).result _ := applied_after leaf
    obtain ⟨complete, same⟩ := (applied.won_iff (before started)).mp result
    exact ⟨same, k, op, steps, leaf, applied.strikes_of_complete (before started) complete, complete⟩
  refine ⟨played, fun j k => ?_, fun k => before, fun k started complete => ?_, fun message => winner,
    fun untargeted message won => ?_⟩
  · rw [after, after, stateAfter, stateAfter, List.take_add, carried, carried, List.foldl_append]
    exact carried_strokes ..
  · have leaf := List.getElem?_eq_getElem (Nat.lt_of_lt_of_le started course.within)
    have result := ((applied_after leaf).won_iff (before started)).mpr ⟨complete, rfl⟩
    obtain ⟨steps, here⟩ := course.settles started leaf (congrArg (settled _) result)
    exact ⟨steps, ended.trans (congrArg some here)⟩
  · obtain ⟨-, -, -, -, -, -, some, -⟩ := winner won
    exact some untargeted

end Canvas

end BlockPlay

import BlockPlay.Proofs.Program.Outline
import BlockPlay.Proofs.Program.Walk

/-!
Loops that run nothing. A walk passes over a loop that repeats nothing or holds no leaf, but it goes
into one whose leaves all stand in loops that repeat nothing. Such an idle loop is walked as often as
it repeats without a leaf; where there is none, the turns up to the next leaf are bounded by the size
of the program, whatever its counts.
-/
namespace BlockPlay.Cursor

/-- The ops that a walk meets: those at the top level and in the loops that it goes into. -/
inductive Met : Op → List Op → Prop where
  | here {op : Op} {ops : List Op} (present : op ∈ ops) : Met op ops
  | inside {op : Op} {ops inner : List Op} {block : BlockId} {count : UInt32}
      (present : .loop block count inner ∈ ops) (entered : enters count inner)
      (deeper : Met op inner) : Met op ops

theorem Met.enter {op : Op} {ops inner : List Op} {block : BlockId} {count : UInt32}
    (met : Met (.loop block count inner) ops) (entered : enters count inner) (present : op ∈ inner) :
    Met op ops := by
  induction met with
  | here outermost => exact .inside outermost entered (.here present)
  | inside above open_above _ ih => exact .inside above open_above ih

/-- A frame in the body of a loop of the program that has leaves to run. -/
def Productive (ops : List Op) (f : Frame) : Prop :=
  ∃ block count, Met (.loop block count f.body) ops ∧ (Op.loop block count f.body).unroll ≠ []

/-- Wherever a walk comes, each frame but the bottom one is in a loop that has leaves to run. -/
def UpperProductive (ops : List Op) : Prop :=
  ∀ frames, Reached ops frames → ∀ f ∈ frames.dropLast, Productive ops f

/-- The walk goes into no loop that has nothing to run. -/
def NoIdle (ops : List Op) : Prop :=
  ∀ block count inner, Met (.loop block count inner) ops → enters count inner →
    (Op.loop block count inner).unroll ≠ []

theorem walk_passes {inner : List Op}
    (pass : ∀ n outer, ∃ turns, Walk turns (⟨inner, inner, n⟩ :: outer) (Op.unrolls inner)
      (⟨[], inner, n⟩ :: outer)) (n : Nat) (outer : List Frame) :
    ∃ turns, n + 1 ≤ turns ∧ Walk turns (⟨inner, inner, n + 1⟩ :: outer)
      (List.replicate (n + 1) (Op.unrolls inner)).flatten outer := by
  induction n with
  | zero =>
    obtain ⟨turns, walk⟩ := pass 1 outer
    have last : Walk 1 (⟨[], inner, 1⟩ :: outer) [] outer := .onward rfl (.stay outer)
    exact ⟨turns + 1, Nat.le_add_left 1 turns, by simpa using walk.trans last⟩
  | succ n ih =>
    obtain ⟨turns, walk⟩ := pass (n + 2) outer
    obtain ⟨more, enough, rest⟩ := ih
    have again : Walk (more + 1) (⟨[], inner, n + 2⟩ :: outer) _ outer := .onward rfl rest
    refine ⟨turns + (more + 1), by omega, ?_⟩
    rw [List.replicate_succ, List.flatten_cons]
    exact walk.trans again

theorem turn_enter {block : BlockId} {count : UInt32} {inner rest body : List Op} {n : Nat}
    {outer : List Frame} (entered : enters count inner) :
    turn (⟨.loop block count inner :: rest, body, n⟩ :: outer) =
      .onward (⟨inner, inner, count.toNat⟩ :: ⟨rest, body, n⟩ :: outer) := by
  simp [turn, entered]

theorem walk_through (part rest body : List Op) (n : Nat) (outer : List Frame) :
    ∃ turns, Walk turns (⟨part ++ rest, body, n⟩ :: outer) (Op.unrolls part)
      (⟨rest, body, n⟩ :: outer) := by
  induction part using Op.forest generalizing rest body n outer with
  | nil => exact ⟨0, .stay _⟩
  | leaf block action ops ih =>
    obtain ⟨turns, walk⟩ := ih rest body n outer
    exact ⟨turns + 1, .leaf rfl walk⟩
  | loop block count inner ops passes ih =>
    obtain ⟨turns, walk⟩ := ih rest body n outer
    cases entered : enters count inner with
    | true =>
      obtain ⟨more, repeats⟩ := exists_count entered
      obtain ⟨before, _, loop⟩ := walk_passes
        (fun n outer => by simpa using passes [] inner n outer) more (⟨ops ++ rest, body, n⟩ :: outer)
      refine ⟨before + turns + 1, .onward (turn_enter entered) ?_⟩
      rw [Op.unrolls, Op.unroll, repeats]
      exact loop.trans walk
    | false =>
      have skip : turn (⟨.loop block count inner :: ops ++ rest, body, n⟩ :: outer) =
          .onward (⟨ops ++ rest, body, n⟩ :: outer) := by
        simp [turn, entered]
      refine ⟨turns + 1, .onward skip ?_⟩
      rwa [Op.unrolls, Op.unroll_eq_nil_of_not_enters block entered]

theorem reached_body {ops part inner body : List Op} {block : BlockId} {count : UInt32} {n : Nat}
    {outer : List Frame} (reached : Reached ops (⟨part, body, n⟩ :: outer))
    (met : Met (.loop block count inner) part) (entered : enters count inner) :
    ∃ around, around ≠ [] ∧ Reached ops (⟨inner, inner, count.toNat⟩ :: around) := by
  induction met generalizing body n outer with
  | here present =>
    obtain ⟨before, after, rfl⟩ := List.append_of_mem present
    obtain ⟨_, walk⟩ := walk_through before (.loop block count inner :: after) body n outer
    have enter := (reached.walk walk).walk (.onward (turn_enter entered) (.stay _))
    exact ⟨_, List.cons_ne_nil _ _, enter⟩
  | @inside part middle name repeats present opens _ ih =>
    obtain ⟨before, after, rfl⟩ := List.append_of_mem present
    obtain ⟨_, walk⟩ := walk_through before (.loop name repeats middle :: after) body n outer
    exact ih ((reached.walk walk).walk (.onward (turn_enter opens) (.stay _)))

/-- The turns that frames can take, none of them starting a further pass. -/
def room : List Frame → Nat
  | [] => 0
  | f :: outer => 1 + 2 * Op.sizes f.rest + room outer

/-- Frames as a walk over a program stacks them. The bottom one is in its only pass; each one above it
is in the body of a loop that the walk has gone into, and stands in the room that the loop has left. -/
inductive Stacked (ops : List Op) : List Frame → Prop where
  | empty : Stacked ops []
  | bottom {f : Frame} (single : f.passes ≤ 1) (met : ∀ op ∈ f.rest, Met op ops)
      (fits : Op.sizes f.rest ≤ Op.sizes ops) : Stacked ops [f]
  | upper {f : Frame} {outer : List Frame}
      (opened : ∃ block count, Met (.loop block count f.body) ops ∧ enters count f.body)
      (met : ∀ op ∈ f.rest, Met op ops) (fits : Op.sizes f.rest ≤ Op.sizes f.body)
      (space : 2 * (1 + Op.sizes f.body) + room outer ≤ 2 * Op.sizes ops + 1)
      (below : Stacked ops outer) : Stacked ops (f :: outer)

theorem Stacked.room_le {ops : List Op} {frames : List Frame} (stacked : Stacked ops frames) :
    room frames ≤ 2 * Op.sizes ops + 1 := by
  cases stacked with
  | empty => exact Nat.zero_le _
  | bottom _ _ fits =>
    simp only [room]
    omega
  | upper _ _ fits space _ =>
    simp only [room]
    omega

theorem Stacked.opened {ops : List Op} {frames : List Frame} (stacked : Stacked ops frames) :
    ∀ f ∈ frames.dropLast, ∃ block count, Met (.loop block count f.body) ops ∧ enters count f.body := by
  induction stacked with
  | empty => simp
  | bottom => simp
  | @upper f outer opened _ _ _ _ ih =>
    intro g present
    cases outer with
    | nil => simp at present
    | cons next rest =>
      rcases List.mem_cons.mp present with rfl | lower
      · exact opened
      · exact ih g lower

theorem Stacked.shrink {ops rest body : List Op} {op : Op} {n : Nat} {outer : List Frame}
    (stacked : Stacked ops (⟨op :: rest, body, n⟩ :: outer)) : Stacked ops (⟨rest, body, n⟩ :: outer) := by
  have smaller : Op.sizes rest ≤ Op.sizes (op :: rest) := Nat.le_add_left _ _
  cases stacked with
  | bottom single met fits =>
    exact .bottom single (fun part present => met part (.tail op present)) (Nat.le_trans smaller fits)
  | upper opened met fits space below =>
    exact .upper opened (fun part present => met part (.tail op present)) (Nat.le_trans smaller fits)
      space below

theorem Stacked.later {ops : List Op} {before after : List Frame} {t : Turn} (step : Taken before t)
    (next : t.later? = some after) (stacked : Stacked ops before) : Stacked ops after := by
  cases step with
  | ended => cases next
  | again body n outer =>
    cases next
    cases stacked with
    | bottom single => simp at single
    | upper opened _ _ space below =>
      obtain ⟨block, count, met, entered⟩ := opened
      exact .upper ⟨block, count, met, entered⟩ (fun op present => met.enter entered present)
        (Nat.le_refl _) space below
  | finish body n outer single =>
    cases next
    cases stacked with
    | bottom => exact .empty
    | upper _ _ _ _ below => exact below
  | leaf block action rest body n outer =>
    cases next
    exact stacked.shrink
  | skip block count inner rest body n outer skipped =>
    cases next
    exact stacked.shrink
  | enter block count inner rest body n outer entered =>
    cases next
    have met : Met (.loop block count inner) ops := by
      cases stacked with
      | bottom _ met => exact met _ (.head _)
      | upper _ met => exact met _ (.head _)
    have space : 2 * (1 + Op.sizes inner) + room (⟨rest, body, n⟩ :: outer) ≤ 2 * Op.sizes ops + 1 := by
      cases stacked with
      | bottom _ _ fits =>
        simp only [room, Op.sizes, Op.size] at fits ⊢
        omega
      | upper _ _ fits space _ =>
        simp only [room, Op.sizes, Op.size] at fits space ⊢
        omega
    exact .upper ⟨block, count, met, entered⟩ (fun op present => met.enter entered present)
      (Nat.le_refl _) space stacked.shrink

theorem Reached.stacked {ops : List Op} {frames : List Frame} (reached : Reached ops frames) :
    Stacked ops frames :=
  reached.keeps (.bottom (Nat.le_refl 1) (fun _ present => .here present) (Nat.le_refl _)) Stacked.later

theorem upperProductive_iff (ops : List Op) : UpperProductive ops ↔ NoIdle ops := by
  constructor
  · intro productive block count inner met entered
    obtain ⟨around, more, reached⟩ := reached_body (Reached.start ops) met entered
    have upper : (⟨inner, inner, count.toNat⟩ : Frame) ∈
        ((⟨inner, inner, count.toNat⟩ : Frame) :: around).dropLast := by
      rw [List.dropLast_cons_of_ne_nil more]
      exact .head _
    obtain ⟨name, repeats, _, runs⟩ := productive _ reached _ upper
    have leaves : Op.unrolls inner ≠ [] := fun none => runs (Op.unroll_loop_eq_nil_iff.mpr (Or.inr none))
    obtain ⟨n, positive⟩ := exists_count entered
    intro none
    rcases Op.unroll_loop_eq_nil_iff.mp none with zero | empty
    · simp [zero] at positive
    · exact leaves empty
  · intro busy frames reached f upper
    obtain ⟨block, count, met, entered⟩ := reached.stacked.opened f upper
    exact ⟨block, count, met, busy block count f.body met entered⟩

theorem NoIdle.body_runs {ops inner : List Op} {block : BlockId} {count : UInt32} (busy : NoIdle ops)
    (met : Met (.loop block count inner) ops) (entered : enters count inner) : Op.unrolls inner ≠ [] :=
  fun none => busy block count inner met entered (Op.unroll_loop_eq_nil_iff.mpr (Or.inr none))

theorem turns_le_of_runs {ops part body : List Op} {n turns : Nat} {outer later : List Frame}
    (busy : NoIdle ops) (met : ∀ op ∈ part, Met op ops) (runs : Op.unrolls part ≠ [])
    (walk : Walk turns (⟨part, body, n⟩ :: outer) [] later) : turns ≤ 2 * Op.sizes part := by
  induction part using Op.forest generalizing body n outer turns with
  | nil => exact absurd rfl runs
  | leaf block action rest ih =>
    cases walk with
    | stay => exact Nat.zero_le _
    | onward taken => cases taken
  | loop block count inner rest pass ih =>
    simp only [Op.sizes, Op.size]
    cases walk with
    | stay => exact Nat.zero_le _
    | onward taken walk =>
      cases Taken.of_turn taken with
      | enter _ _ _ _ _ _ _ entered =>
        have loop := met _ (.head _)
        have bound := pass (fun op present => loop.enter entered present) (busy.body_runs loop entered) walk
        omega
      | skip _ _ _ _ _ _ _ skipped =>
        -- The leaves stand behind a loop that is stepped over.
        have nothing := Op.unroll_eq_nil_of_not_enters block skipped
        have leaves : Op.unrolls rest ≠ [] := by
          intro none
          exact runs (by rw [Op.unrolls, nothing, none]; rfl)
        have bound := ih (fun op present => met op (.tail _ present)) leaves walk
        omega

theorem turns_le_room {ops leaves : List Op} {turns : Nat} {frames later : List Frame}
    (busy : NoIdle ops) (stacked : Stacked ops frames) (walk : Walk turns frames leaves later)
    (silent : leaves = []) : turns ≤ room frames + 2 * Op.sizes ops := by
  -- Only a further pass takes more than the room that is left, and it soon comes to a leaf.
  induction walk with
  | stay => exact Nat.zero_le _
  | leaf => cases silent
  | onward taken walk ih =>
    have step := Taken.of_turn taken
    have bound := ih (stacked.later step rfl) silent
    cases step with
    | again body n outer =>
      subst silent
      cases stacked with
      | bottom single => simp at single
      | upper opened _ _ space _ =>
        obtain ⟨block, count, met, entered⟩ := opened
        have pass := turns_le_of_runs busy (fun op present => met.enter entered present)
          (busy.body_runs met entered) walk
        have fits : 2 * (1 + Op.sizes body) + room outer ≤ 2 * Op.sizes ops + 1 := space
        omega
    | finish body n outer single =>
      simp only [room]
      omega
    | enter block count inner rest body n outer entered =>
      simp only [room, Op.sizes, Op.size] at bound ⊢
      omega
    | skip block count inner rest body n outer skipped =>
      simp only [room, Op.sizes, Op.size] at bound ⊢
      omega

theorem idle_loop_cost {ops inner : List Op} {block : BlockId} {count : UInt32}
    (met : Met (.loop block count inner) ops) (entered : enters count inner)
    (idle : (Op.loop block count inner).unroll = []) :
    ∃ frames later turns, Reached ops frames ∧ Walk turns frames [] later ∧ count.toNat ≤ turns := by
  obtain ⟨around, _, reached⟩ := reached_body (Reached.start ops) met entered
  obtain ⟨n, repeats⟩ := exists_count entered
  obtain ⟨turns, enough, walk⟩ := walk_passes
    (fun n outer => by simpa using walk_through inner [] inner n outer) n around
  have silent : (List.replicate (n + 1) (Op.unrolls inner)).flatten = [] := by
    rw [← idle, Op.unroll, repeats]
  rw [silent] at walk
  rw [repeats] at reached ⊢
  exact ⟨_, around, turns, reached, walk, enough⟩

/-- The frames above the bottom one are all in loops with leaves to run exactly when the walk goes into
no idle loop. Then the turns without a leaf are bounded by the size of the program, whatever its counts;
an idle loop takes at least as many of them as it repeats. -/
theorem upper_frames_productive_iff (ops : List Op) :
    (UpperProductive ops ↔ NoIdle ops) ∧
    (NoIdle ops → ∀ frames later turns, Reached ops frames → Walk turns frames [] later →
      turns ≤ 4 * Op.sizes ops + 1) ∧
    ∀ block count inner, Met (.loop block count inner) ops → enters count inner →
      (Op.loop block count inner).unroll = [] →
      ∃ frames later turns, Reached ops frames ∧ Walk turns frames [] later ∧ count.toNat ≤ turns := by
  refine ⟨upperProductive_iff ops, ?_, ?_⟩
  · intro busy frames later turns reached walk
    have bound := turns_le_room busy reached.stacked walk rfl
    have space := reached.stacked.room_le
    omega
  · intro block count inner met entered idle
    exact idle_loop_cost met entered idle

theorem upper_frames_productive_iff_single : NoIdle [.loop ⟨"again"⟩ 3 [.leaf ⟨"item"⟩ .collect]] ∧
    ∀ frames later turns, Reached [.loop ⟨"again"⟩ 3 [.leaf ⟨"item"⟩ .collect]] frames →
      Walk turns frames [] later → turns ≤ 9 := by
  have busy : NoIdle [.loop ⟨"again"⟩ 3 [.leaf ⟨"item"⟩ .collect]] := by
    intro block count inner met entered
    rcases met with present | ⟨present, _, deeper⟩
    · rcases List.mem_singleton.mp present with ⟨⟩
      simp [Op.unrolls, Op.unroll]
    · rcases List.mem_singleton.mp present with ⟨⟩
      rcases deeper with leaf | ⟨leaf, _, _⟩
      · simp at leaf
      · simp at leaf
  exact ⟨busy, (upper_frames_productive_iff _).2.1 busy⟩

def idleNest : List Op :=
  [.loop ⟨"first"⟩ 10000 [.loop ⟨"second"⟩ 10000 [.loop ⟨"third"⟩ 10000 [.loop ⟨"fourth"⟩ 10000
    [.loop ⟨"never"⟩ 0 [.leaf ⟨"item"⟩ .collect]]]]]]

/-- The loops of the nest are entered, as there is a leaf in them. -/
theorem idle_nest_not_productive : ¬ UpperProductive idleNest := by
  rw [upperProductive_iff]
  intro busy
  refine busy ⟨"first"⟩ 10000 _ (.here (.head _)) rfl ?_
  simp [Op.unroll_loop_eq_nil_iff, Op.unrolls]

end BlockPlay.Cursor

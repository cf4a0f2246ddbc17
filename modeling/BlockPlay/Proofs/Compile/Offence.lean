import BlockPlay.Proofs.Compile.Validity

/-!
The validator beside a reference that goes down a program line by line. A program is rejected for what is
wrong with it as a whole, or else for the first op in document order that offends; of an accepted program,
no start runs after another leaf.
-/
namespace BlockPlay

namespace Op

theorem depths_le_iff {level n : Nat} {ops : List Op} (within : level ≤ n) :
    level + depths ops ≤ n ↔ ∀ line ∈ outlines level ops, line.1 < n := by
  induction ops using forest generalizing level with
  | nil => simp [depths, outlines, within]
  | leaf block action ops ih =>
    have later := ih within
    simp only [depths, depth, outlines, outline, List.cons_append, List.nil_append, List.forall_mem_cons,
      ← later]
    omega
  | loop block count body ops inner ih =>
    have later := ih within
    simp only [depths, depth, outlines, outline, List.cons_append, List.forall_mem_cons,
      List.forall_mem_append, ← later]
    constructor
    · intro deep
      have deeper : level + 1 ≤ n := by omega
      refine ⟨by omega, (inner deeper).mp (by omega), by omega⟩
    · rintro ⟨shallow, below, beside⟩
      have deep := (inner shallow).mpr below
      omega

/-- A leaf that is not the first one to run has a line that is not the first one. -/
theorem exists_later_line {ops : List Op} {k : Nat} {op : Op} (later : 0 < k)
    (leaf : (unrolls ops)[k]? = some op) :
    ∃ j line, 0 < j ∧ (outlines 0 ops)[j]? = some line ∧ line.2 = op := by
  have moved {first : Nat × Op} {lines : List (Nat × Op)} {level : Nat} (present : (level, op) ∈ lines) :
      ∃ j line, 0 < j ∧ (first :: lines)[j]? = some line ∧ line.2 = op := by
    obtain ⟨j, found⟩ := List.mem_iff_getElem?.mp present
    exact ⟨j + 1, (level, op), Nat.succ_pos j, found, rfl⟩
  cases ops with
  | nil => cases leaf
  | cons first rest =>
    cases first with
    | leaf block action =>
      obtain ⟨k, rfl⟩ := Nat.exists_eq_succ_of_ne_zero (Nat.ne_of_gt later)
      have after : op ∈ unrolls rest := List.mem_of_getElem? leaf
      obtain ⟨level, line⟩ := mem_outlines_of_mem_unrolls after 0
      exact moved line
    | loop block count body =>
      -- A loop does not run itself, so that its line is none of a leaf.
      obtain ⟨level, line⟩ := mem_outlines_of_mem_unrolls (List.mem_of_getElem? leaf) 0
      rcases List.mem_cons.mp line with head | tail
      · have isLeaf := isLeaf_of_mem_unrolls (List.mem_of_getElem? leaf)
        rw [(Prod.mk.inj head).2] at isLeaf
        cases isLeaf
      · exact moved tail

end Op

theorem findSome?_mapIdx_iff {α β : Type} {f : Nat → α → Option β} {l : List α} {b : β} :
    (l.mapIdx f).findSome? id = some b ↔ ∃ k a, l[k]? = some a ∧ f k a = some b ∧
      ∀ j < k, ∀ earlier, l[j]? = some earlier → f j earlier = none := by
  induction l generalizing f with
  | nil => simp
  | cons first l ih =>
    rw [List.mapIdx_cons, List.findSome?_cons]
    cases found : f 0 first with
    | some c =>
      constructor
      · intro same
        exact ⟨0, first, rfl, found.trans same, nofun⟩
      · rintro ⟨k, a, here, hit, misses⟩
        cases k with
        | zero =>
          cases here
          exact found.symm.trans hit
        | succ k =>
          have missed := misses 0 (Nat.succ_pos k) first rfl
          rw [found] at missed
          cases missed
    | none =>
      refine ih.trans ⟨?_, ?_⟩
      · rintro ⟨k, a, here, hit, misses⟩
        refine ⟨k + 1, a, here, hit, fun j before earlier there => ?_⟩
        cases j with
        | zero =>
          cases there
          exact found
        | succ j => exact misses j (Nat.lt_of_succ_lt_succ before) earlier there
      · rintro ⟨k, a, here, hit, misses⟩
        cases k with
        | zero =>
          cases here
          rw [found] at hit
          cases hit
        | succ k =>
          exact ⟨k, a, here, hit, fun j before => misses (j + 1) (Nat.succ_lt_succ before)⟩

namespace Limits

/-- What a validator has against the op on the line with a number. The op on the first line is the first one
at the top level, the only one that may be a start. -/
inductive Offends (limits : Limits) : Nat → Op → ValidationError → Prop
  | start {k : Nat} {block : BlockId} (later : 0 < k) :
      Offends limits k (.leaf block .start) (.misplacedStart block)
  | turn {k : Nat} {block : BlockId} {direction : Direction} {degrees : Float}
      (endless : ¬ degrees.isFinite) :
      Offends limits k (.leaf block (.turn direction degrees)) (.invalidNumber block .degrees degrees)
  | width {k : Nat} {block : BlockId} {width : Float} (unfit : ¬ width.isFinite ∨ width ≤ 0) :
      Offends limits k (.leaf block (.width width)) (.invalidNumber block .width width)
  | loop {k : Nat} {block : BlockId} {count : UInt32} {body : List Op} (large : limits.maxRepeat < count) :
      Offends limits k (.loop block count body) (.repeatTooLarge block count limits.maxRepeat)

/-- There is something in a program besides starts, and it is not too deep. -/
structure Sizable (limits : Limits) (p : Program) : Prop where
  more : ∃ op ∈ p.ops, ¬ op.isStart
  shallow : p.depth ≤ limits.maxDepth

/-- No line offends. -/
def Clean (limits : Limits) (p : Program) : Prop :=
  ∀ k line e, (Op.outlines 0 p.ops)[k]? = some line → ¬ limits.Offends k line.2 e

/-- Why a program is rejected: it has nothing but starts, or else it is too deep, or else a line of it
offends and no earlier one does. -/
inductive Rejects (limits : Limits) (p : Program) : ValidationError → Prop
  | empty (starts : ∀ op ∈ p.ops, op.isStart) : Rejects limits p .empty
  | deep (more : ∃ op ∈ p.ops, ¬ op.isStart) (deep : limits.maxDepth < p.depth) :
      Rejects limits p (.tooDeep p.depth limits.maxDepth)
  | offence (sizable : limits.Sizable p) {k : Nat} {line : Nat × Op} {e : ValidationError}
      (here : (Op.outlines 0 p.ops)[k]? = some line) (offends : limits.Offends k line.2 e)
      (first : ∀ j < k, ∀ earlier, (Op.outlines 0 p.ops)[j]? = some earlier →
        ∀ e', ¬ limits.Offends j earlier.2 e') : Rejects limits p e

variable {limits : Limits} {p : Program} {e : ValidationError}

def offenceAt? (limits : Limits) (k : Nat) (line : Nat × Op) : Option ValidationError :=
  if k = 0 ∧ line.2.isStart then none else limits.offence? line.2

theorem offenceAt?_eq_some_iff {k : Nat} {line : Nat × Op} :
    limits.offenceAt? k line = some e ↔ limits.Offends k line.2 e := by
  obtain ⟨level, op⟩ := line
  rw [offenceAt?]
  constructor
  · intro found
    split at found
    next => cases found
    next placed =>
      cases op with
      | loop block count body =>
        simp only [offence?] at found
        split at found <;> cases found
        next large => exact .loop large
      | leaf block action =>
        cases action <;> simp only [offence?, checkLeaf] at found
        case start =>
          cases found
          exact .start (Nat.pos_of_ne_zero fun zero => placed ⟨zero, rfl⟩)
        case turn direction degrees =>
          by_cases finite : degrees.isFinite
          · rw [if_pos finite] at found
            cases found
          · rw [if_neg finite] at found
            cases found
            exact .turn finite
        case width width =>
          by_cases unfit : !width.isFinite || width ≤ 0
          · rw [if_pos unfit] at found
            cases found
            exact .width (by simpa using unfit)
          · rw [if_neg unfit] at found
            cases found
        all_goals cases found
  · intro offends
    cases offends with
    | start later =>
      rw [if_neg fun first => absurd first.1 (Nat.ne_of_gt later)]
      rfl
    | turn endless => simp [Op.isStart, offence?, checkLeaf, endless]
    | @width _ width unfit =>
      have judged : !width.isFinite || width ≤ 0 := by simpa using unfit
      simp only [Op.isStart, offence?, checkLeaf, if_pos judged, Bool.false_eq_true, and_false, if_false]
    | loop large => simp [Op.isStart, offence?, large]

/-- Past the first line, what offends does so wherever it stands. -/
theorem findSome?_offenceAt (limits : Limits) (ops : List Op) :
    ((Op.outlines 0 ops).mapIdx limits.offenceAt?).findSome? id =
      (Op.outlines 0 (judged ops)).findSome? (limits.offence? ·.2) := by
  have later (lines : List (Nat × Op)) :
      (lines.mapIdx fun k => limits.offenceAt? (k + 1)).findSome? id =
        lines.findSome? (limits.offence? ·.2) := by
    have same : (fun k => limits.offenceAt? (k + 1)) = fun _ line => limits.offence? line.2 := rfl
    rw [same]
    induction lines with
    | nil => rfl
    | cons line lines ih => rw [List.mapIdx_cons, List.findSome?_cons, List.findSome?_cons, id, ih]
  have whole {line : Nat × Op} {lines : List (Nat × Op)} (other : line.2.isStart = false) :
      ((line :: lines).mapIdx limits.offenceAt?).findSome? id =
        (line :: lines).findSome? (limits.offence? ·.2) := by
    have first : limits.offenceAt? 0 line = limits.offence? line.2 := if_neg (by simp [other])
    rw [List.mapIdx_cons, List.findSome?_cons, List.findSome?_cons, id, first, later]
  cases ops with
  | nil => rfl
  | cons op rest =>
    cases op with
    | loop block count body => exact whole rfl
    | leaf block action =>
      rw [judged]
      split
      next start =>
        have first : limits.offenceAt? 0 (0, .leaf block action) = none := if_pos ⟨rfl, start⟩
        change (((0, Op.leaf block action) :: Op.outlines 0 rest).mapIdx _).findSome? id = _
        rw [List.mapIdx_cons, List.findSome?_cons, id, first]
        exact later _
      next other => exact whole (eq_false_of_ne_true other)

theorem Sizable.validate_eq (sizable : limits.Sizable p) :
    limits.validate p =
      (((Op.outlines 0 p.ops).mapIdx limits.offenceAt?).findSome? id).elim (.ok ()) .error := by
  have mixed : ¬ p.ops.all Op.isStart := by simpa using sizable.more
  rw [validate, if_neg mixed, if_neg (Nat.not_lt.mpr sizable.shallow), checkAll_eq limits 0,
    findSome?_offenceAt]

theorem offenceAt?_eq_none_iff {k : Nat} {line : Nat × Op} :
    limits.offenceAt? k line = none ↔ ∀ e, ¬ limits.Offends k line.2 e := by
  simp only [← offenceAt?_eq_some_iff, Option.eq_none_iff_forall_ne_some, ne_eq]

theorem Clean.validate (clean : limits.Clean p) (sizable : limits.Sizable p) :
    limits.validate p = .ok () := by
  have none_ : ((Op.outlines 0 p.ops).mapIdx limits.offenceAt?).findSome? id = none := by
    refine List.findSome?_eq_none_iff.mpr fun found present => ?_
    obtain ⟨k, within, rfl⟩ := List.mem_mapIdx.mp present
    exact offenceAt?_eq_none_iff.mpr (clean k _ · (List.getElem?_eq_getElem within))
  rw [sizable.validate_eq, none_]
  rfl

theorem Rejects.validate (rejects : limits.Rejects p e) : limits.validate p = .error e := by
  cases rejects with
  | empty starts => exact if_pos (List.all_eq_true.mpr starts)
  | deep more deep =>
    have mixed : ¬ p.ops.all Op.isStart := by simpa using more
    rw [Limits.validate, if_neg mixed, if_pos deep]
  | offence sizable here offends first =>
    have found := findSome?_mapIdx_iff.mpr ⟨_, _, here, offenceAt?_eq_some_iff.mpr offends,
      fun j before earlier there => offenceAt?_eq_none_iff.mpr (first j before earlier there)⟩
    rw [sizable.validate_eq, found]
    rfl

theorem rejects_or_clean (limits : Limits) (p : Program) :
    (∃ e, limits.Rejects p e) ∨ limits.Sizable p ∧ limits.Clean p := by
  by_cases more : ∃ op ∈ p.ops, ¬ op.isStart
  · by_cases deep : limits.maxDepth < p.depth
    · exact .inl ⟨_, .deep more deep⟩
    · have sizable : limits.Sizable p := ⟨more, Nat.le_of_not_lt deep⟩
      cases found : ((Op.outlines 0 p.ops).mapIdx limits.offenceAt?).findSome? id with
      | some e =>
        obtain ⟨k, line, here, offence, misses⟩ := findSome?_mapIdx_iff.mp found
        exact .inl ⟨e, .offence sizable here (offenceAt?_eq_some_iff.mp offence)
          fun j before earlier there => offenceAt?_eq_none_iff.mp (misses j before earlier there)⟩
      | none =>
        refine .inr ⟨sizable, fun k line e here => ?_⟩
        obtain ⟨within, rfl⟩ := List.getElem?_eq_some_iff.mp here
        have missed := List.findSome?_eq_none_iff.mp found _ (List.mem_mapIdx.mpr ⟨k, within, rfl⟩)
        exact offenceAt?_eq_none_iff.mp missed e
  · exact .inl ⟨_, .empty fun op present => by simpa using mt (fun other => ⟨op, present, other⟩) more⟩

theorem clean_of_validate (valid : limits.validate p = .ok ()) : limits.Sizable p ∧ limits.Clean p := by
  refine (rejects_or_clean limits p).resolve_left ?_
  rintro ⟨e, rejects⟩
  cases valid.symm.trans rejects.validate

/-- The verdict of a validator. It accepts a program that has more than starts, is not too deep and has no
offending line, and rejects every other one for the first reason there is. The depth is the number of levels
that the lines take up, and a start that is accepted is the first leaf that runs. -/
theorem validate_iff_rejects (limits : Limits) (p : Program) :
    (∀ e, limits.validate p = .error e ↔ limits.Rejects p e) ∧
    (limits.validate p = .ok () ↔ limits.Sizable p ∧ limits.Clean p) ∧
    (∀ n, p.depth ≤ n ↔ ∀ line ∈ Op.outlines 0 p.ops, line.1 < n) ∧
    (limits.validate p = .ok () →
      ∀ k block, p.unroll[k]? = some (.leaf block .start) → k = 0) := by
  refine ⟨fun e => ⟨fun rejected => ?_, Rejects.validate⟩,
    ⟨clean_of_validate, fun ⟨sizable, clean⟩ => clean.validate sizable⟩, fun n => ?_,
    fun valid k block leaf => ?_⟩
  · rcases rejects_or_clean limits p with ⟨cause, rejects⟩ | ⟨sizable, clean⟩
    · cases rejected.symm.trans rejects.validate
      exact rejects
    · cases rejected.symm.trans (clean.validate sizable)
  · have levels : 0 + Op.depths p.ops ≤ n ↔ _ := Op.depths_le_iff (Nat.zero_le n)
    rwa [Nat.zero_add] at levels
  · refine Nat.eq_zero_of_not_pos fun later => ?_
    obtain ⟨j, ⟨level, op⟩, beyond, line, (rfl : op = _)⟩ := Op.exists_later_line later leaf
    exact (clean_of_validate valid).2 j _ _ line (.start beyond)

/-- The second program has two defects, and it is the loop that is reported and not the start in it. -/
theorem validate_iff_rejects_large :
    let limits : Limits := ⟨5, 2⟩
    let small : Program := ⟨[.leaf ⟨"start"⟩ .start, .loop ⟨"twice"⟩ 2 [.leaf ⟨"ahead"⟩ (.move 1)]]⟩
    let large : Program := ⟨[.leaf ⟨"ahead"⟩ (.move 1), .loop ⟨"often"⟩ 6 [.leaf ⟨"start"⟩ .start]]⟩
    limits.validate small = .ok () ∧
      (∀ k block, small.unroll[k]? = some (.leaf block .start) → k = 0) ∧
      limits.Rejects large (.repeatTooLarge ⟨"often"⟩ 6 5) := by
  intro limits small large
  have valid : limits.validate small = .ok () := rfl
  obtain ⟨rejects, -, -, -⟩ := validate_iff_rejects limits large
  exact ⟨valid, (validate_iff_rejects limits small).2.2.2 valid, (rejects _).mp rfl⟩

end Limits

end BlockPlay

import BlockPlay.Proofs.Compile.Unfolding

/-!
What goes wrong in a compilation. The error is that of the first block in the unfolding with something
wrong, if the budget reaches so far; no other block matters, and nothing is cut off.
-/
namespace BlockPlay

/-- The same block in two graphs, as far as the way through them and its faults go. -/
structure BlockGraph.SameAt {Node : Type} (g other : BlockGraph Node) (node : Node) : Prop where
  id : other.id node = g.id node
  kind : other.kind node = g.kind node
  next : other.next? node = g.next? node
  body : other.body? node = g.body? node

namespace Compile

open Stream' (Seq)

variable {Node : Type} {g other : BlockGraph Node} {config : Config}

theorem Stops.findSome? {budget left : Nat} {chains : List (Visit Node)} {e : CompileError}
    (stops : Stops g config budget left chains e) :
    ((visits g config chains).take budget).findSome? (fault? g config) = some e := by
  obtain ⟨visited, bad, last, trail, spent, sound, wrong⟩ := stops
  rw [← spent, Nat.add_assoc, trail.take, Nat.add_comm 1, take_visits, List.findSome?_append,
    List.findSome?_eq_none_iff.mpr sound, Option.none_or, List.findSome?_cons, wrong]

theorem Covers.findSome? {budget left : Nat} {truncated : Bool} {chains : List (Visit Node)}
    {lines : List (Nat × Op)} (covers : Covers g config budget left truncated chains [] lines) :
    ((visits g config chains).take budget).findSome? (fault? g config) = none := by
  obtain ⟨visited, last, trail, spent, -, sound, stop⟩ := covers
  have nothing : (visits g config last).take left = [] := by
    cases truncated with
    | false =>
      obtain rfl : last = [] := by simpa using stop
      rw [visits_nil, Seq.take_nil]
    | true =>
      obtain ⟨rfl, -⟩ : left = 0 ∧ last ≠ [] := by simpa using stop
      rfl
  rw [← spent, trail.take, nothing, List.append_nil]
  exact List.findSome?_eq_none_iff.mpr sound

theorem fault?_ne_missingStart (v : Visit Node) (tags : List String) :
    fault? g config v ≠ some (.missingStart tags) := by
  unfold fault?
  split
  next => nofun
  next => split <;> nofun
  next => nofun

theorem below_sameAt {v : Visit Node} (same : g.SameAt other v.node) :
    below other config v = below g config v := by
  simp only [below, body, same.kind, same.body, same.next]

theorem fault?_sameAt {v : Visit Node} (same : g.SameAt other v.node) :
    fault? other config v = fault? g config v := by
  simp only [fault?, same.kind, same.id]

theorem take_visits_sameAt {n : Nat} {chains : List (Visit Node)}
    (same : ∀ v ∈ (visits g config chains).take n, g.SameAt other v.node) :
    (visits other config chains).take n = (visits g config chains).take n := by
  induction n generalizing chains with
  | zero => rfl
  | succ n ih =>
    cases chains with
    | nil => rw [visits_nil, visits_nil]
    | cons v rest =>
      rw [take_visits] at same ⊢
      rw [take_visits, below_sameAt (same v (.head _)),
        ih fun u present => same u (.tail v present)]

/-- Where a compilation finds a start, it fails with the first fault that its budget reaches, and is
not cut off. -/
theorem error_iff_findSome? {compiler : Compiler} {start : Node}
    (found : Compiler.start? compiler.config g = some start) (e : CompileError) :
    ((compiler.compile g).1 = .error e ↔
      ((unfolding g compiler.config start).take compiler.config.maxBlocks).findSome?
        (fault? g compiler.config) = some e) ∧
    ((compiler.compile g).1 = .error e → (compiler.compile g).2.truncated = false) := by
  obtain ⟨covers, stops⟩ := chain_explains g compiler.config compiler.config.maxBlocks 0
    (some start) []
  simp only [Compiler.compile, found]
  cases ended : (chain g compiler.config compiler.config.maxBlocks 0 (some start)).ops with
  | ok ops =>
    have clean := (covers ops ended).findSome?
    change ((unfolding _ _ _).take _).findSome? _ = none at clean
    rw [clean]
    simp [Except.map]
  | error cause =>
    obtain ⟨stop, uncut⟩ := stops cause ended
    have first := stop.findSome?
    change ((unfolding _ _ _).take _).findSome? _ = some cause at first
    rw [first, uncut]
    simp [Except.map]

theorem missingStart_iff {compiler : Compiler} (tags : List String) :
    (compiler.compile g).1 = .error (.missingStart tags) ↔
      tags = compiler.config.tags .start ∧
        ∀ node ∈ g.top, compiler.config.classify (g.kind node) ≠ some .start := by
  have absent : (∀ node ∈ g.top, compiler.config.classify (g.kind node) ≠ some .start) ↔
      Compiler.start? compiler.config g = none := by
    simp [Compiler.start?, List.find?_eq_none]
  rw [absent]
  cases found : Compiler.start? compiler.config g with
  | none => simp [Compiler.compile, found, eq_comm]
  | some start =>
    rw [(error_iff_findSome? found _).1]
    constructor
    · intro first
      obtain ⟨v, -, wrong⟩ := List.exists_of_findSome?_eq_some first
      exact absurd wrong (fault?_ne_missingStart v tags)
    · rintro ⟨-, absent⟩
      cases absent

/-- A compilation fails for want of a start, or with the first fault in the unfolding that its budget
reaches, and a compilation that fails is not cut off. A graph that differs anywhere else fails in the same
way. -/
theorem compile_reports_first_fault (g : BlockGraph Node) (compiler : Compiler) :
    let config := compiler.config
    (∀ tags, (compiler.compile g).1 = .error (.missingStart tags) ↔
      tags = config.tags .start ∧ ∀ node ∈ g.top, config.classify (g.kind node) ≠ some .start) ∧
    (∀ start, Compiler.start? config g = some start →
      let reached := (unfolding g config start).take config.maxBlocks
      (∀ e, (compiler.compile g).1 = .error e ↔ reached.findSome? (fault? g config) = some e) ∧
      ∀ other, Compiler.start? config other = some start →
        (∀ v ∈ reached, g.SameAt other v.node) →
        ∀ e, (compiler.compile other).1 = .error e ↔ (compiler.compile g).1 = .error e) ∧
    ∀ e, (compiler.compile g).1 = .error e → (compiler.compile g).2.truncated = false := by
  intro config
  refine ⟨missingStart_iff, fun start found => ⟨fun e => (error_iff_findSome? found e).1, ?_⟩, ?_⟩
  · intro other again same e
    rw [(error_iff_findSome? again e).1, (error_iff_findSome? found e).1, unfolding,
      take_visits_sameAt same]
    have faults : ((unfolding g config start).take config.maxBlocks).filterMap (fault? other config) =
        ((unfolding g config start).take config.maxBlocks).filterMap (fault? g config) :=
      List.filterMap_congr fun v present => fault?_sameAt (same v present)
    rw [← List.head?_filterMap, ← List.head?_filterMap]
    exact Iff.of_eq (congrArg (·.head? = some e) faults)
  · intro e failed
    cases found : Compiler.start? config g with
    | none => simp only [Compiler.compile, config, found]
    | some start => exact (error_iff_findSome? found e).2 failed

/-- A configuration without moves, with a budget up to the first of those of the endless graph. -/
def moveless : Config := ⟨[(.start, ["start"]), (.loop, ["repeat"])], 3, 1⟩

theorem start?_moveless : Compiler.start? moveless endless = some "start" := by
  decide

theorem reached_moveless : (unfolding endless moveless "start").take 3 =
    [⟨"start", 0⟩, ⟨"repeat", 0⟩, ⟨"move", 1⟩] := by
  have start : below endless moveless ⟨"start", 0⟩ = [⟨"repeat", 0⟩] := rfl
  have loop : below endless moveless ⟨"repeat", 0⟩ = [⟨"move", 1⟩, ⟨"move", 0⟩] := rfl
  simp only [unfolding, take_visits, start, loop, List.cons_append, List.nil_append, Seq.take_zero]

theorem compile_reports_first_fault_moveless :
    let wider := { endless with top := ["start", "elsewhere"] }
    Compiler.start? moveless endless = some "start" ∧ Compiler.start? moveless wider = some "start" ∧
    ((⟨moveless, 7, true⟩ : Compiler).compile endless).1 = .error (.unknownBlock ⟨"move"⟩ "move") ∧
    ((⟨moveless, 7, true⟩ : Compiler).compile wider).1 = .error (.unknownBlock ⟨"move"⟩ "move") ∧
    ((⟨moveless, 7, true⟩ : Compiler).compile endless).2.truncated = false := by
  intro wider
  have again : Compiler.start? moveless wider = some "start" := by decide
  obtain ⟨-, reports, uncut⟩ := compile_reports_first_fault endless ⟨moveless, 7, true⟩
  obtain ⟨faults, alike⟩ := reports "start" start?_moveless
  have fails : ((⟨moveless, 7, true⟩ : Compiler).compile endless).1 =
      .error (.unknownBlock ⟨"move"⟩ "move") := by
    rw [faults]
    change ((unfolding endless moveless "start").take 3).findSome? _ = _
    rw [reached_moveless]
    rfl
  refine ⟨start?_moveless, again, fails, ?_, uncut _ fails⟩
  exact (alike wider again (fun v _ => ⟨rfl, rfl, rfl, rfl⟩) _).mpr fails

end Compile

end BlockPlay

import BlockPlay.Proofs.Grid.Farm

/-!
The chores on a farm, written down one after the other. Each item is collected once, and each plot is
planted, watered and harvested in turn, whatever else is attempted in between.
-/
namespace BlockPlay.Farm

/-- The care that a plot needs after it has been tended so often. -/
def Care.turn (n : Nat) : Care :=
  match n % 3 with
  | 0 => plant
  | 1 => water
  | _ => harvest

/-- The stage of a plot that has been tended so often. -/
def Plot.grown (n : Nat) : Plot :=
  match n % 3 with
  | 0 => empty
  | 1 => seeded
  | _ => watered

theorem Plot.grown_eq (n : Nat) : grown n = (Care.turn n).source := by
  rw [grown, Care.turn]
  split <;> rfl

theorem mod_three_cases (n : Nat) :
    n % 3 = 0 ∧ (n + 1) % 3 = 1 ∧ (n + 1) / 3 = n / 3 ∨
      n % 3 = 1 ∧ (n + 1) % 3 = 2 ∧ (n + 1) / 3 = n / 3 ∨
      n % 3 = 2 ∧ (n + 1) % 3 = 0 ∧ (n + 1) / 3 = n / 3 + 1 := by
  omega

theorem Plot.grown_succ (n : Nat) : grown (n + 1) = (Care.turn n).target := by
  rw [grown, Care.turn]
  rcases mod_three_cases n with ⟨now, next, -⟩ | ⟨now, next, -⟩ | ⟨now, next, -⟩ <;>
    rw [now, next] <;> rfl

theorem Care.crops_turn (n : Nat) : (n + 1) / 3 = n / 3 + (turn n).crops.toNat := by
  rw [turn]
  rcases mod_three_cases n with ⟨now, -, whole⟩ | ⟨now, -, whole⟩ | ⟨now, -, whole⟩ <;>
    rw [now, whole] <;> rfl

theorem Care.source_inj {care care' : Care} (same : care.source = care'.source) : care = care' := by
  cases care <;> cases care' <;> first | rfl | cases same

/-- The chore that an instruction asks for, if it is done. -/
def accomplished (op : Op) : Except Fault Outcome → Option Chore
  | .ok (.lost _) => none
  | .ok _ => chore? op
  | .error _ => none

/-- The chores that are done in a series of instructions, each with its cell. -/
def diary (f : Farm) (pace : Pace) : List Op → State → List (Position × Chore)
  | [], _ => []
  | op :: ops, s =>
    ((accomplished op (f.apply pace op s).result).map (Prod.mk s.position)).toList
      ++ f.diary pace ops (f.apply pace op s).state

/-- The cells where something has been collected. -/
def gathered (entries : List (Position × Chore)) : List Position :=
  entries.filterMap fun (p, chore) => if chore = .collect then some p else none

/-- How the plot on a cell has been tended. -/
def cares (p : Position) (entries : List (Position × Chore)) : List Care :=
  entries.filterMap fun (q, chore) =>
    match chore with
    | .tend care => if q = p then some care else none
    | .collect => none

/-- The number of times that plots have gone from one harvest to the next. -/
def cycles (entries : List (Position × Chore)) : List Position → Nat
  | [] => 0
  | p :: plots => (cares p entries).length / 3 + cycles entries plots

variable {f : Farm} {pace : Pace} {op : Op} {s next : State} {result : Except Fault Outcome}
  {entries : List (Position × Chore)} {p q : Position} {care : Care}

theorem accomplished_idle (idle : chore? op = none) : accomplished op result = none := by
  rcases result with _ | _ | _ | _ <;> first | rfl | exact idle

theorem accomplished_settle (after : State) : accomplished op (.ok (f.settle after)) = chore? op := by
  rw [settle]
  split <;> rfl

@[simp] theorem gathered_collect : gathered (entries ++ [(p, .collect)]) = gathered entries ++ [p] := by
  simp [gathered]

@[simp] theorem gathered_tend : gathered (entries ++ [(p, .tend care)]) = gathered entries := by
  simp [gathered]

@[simp] theorem cares_collect : cares q (entries ++ [(p, .collect)]) = cares q entries := by
  simp [cares]

@[simp] theorem cares_tend_self : cares p (entries ++ [(p, .tend care)]) = cares p entries ++ [care] := by
  simp [cares]

theorem cares_tend_of_ne (other : p ≠ q) : cares q (entries ++ [(p, .tend care)]) = cares q entries := by
  simp [cares, other]

theorem cycles_congr {entries' : List (Position × Chore)} {plots : List Position}
    (same : ∀ q ∈ plots, cares q entries' = cares q entries) :
    cycles entries' plots = cycles entries plots := by
  induction plots with
  | nil => rfl
  | cons q plots ih =>
    rw [cycles, cycles, same q List.mem_cons_self, ih fun r later => same r (List.mem_cons_of_mem q later)]

/-- One more care on a plot is counted once, if the plot is in the list once. -/
theorem cycles_tend {plots : List Position} (once : plots.Nodup) (present : p ∈ plots)
    (due : care = Care.turn (cares p entries).length) :
    cycles (entries ++ [(p, .tend care)]) plots = cycles entries plots + care.crops.toNat := by
  induction plots with
  | nil => cases present
  | cons q plots ih =>
    obtain ⟨absent, once⟩ := List.nodup_cons.mp once
    rw [cycles, cycles]
    rcases List.mem_cons.mp present with rfl | later
    · have rest : cycles (entries ++ [(p, .tend care)]) plots = cycles entries plots :=
        cycles_congr fun r later => cares_tend_of_ne fun same => absent (same ▸ later)
      rw [rest, cares_tend_self, List.length_append, List.length_singleton, due, Care.crops_turn]
      omega
    · have other : p ≠ q := fun same => absent (same ▸ later)
      rw [cares_tend_of_ne other, ih once later]
      omega

theorem keys_setPlot (target : Plot) : (s.setPlot target).plots.map Prod.fst = s.plots.map Prod.fst := by
  rw [State.setPlot, List.map_map]
  refine List.map_congr_left fun (q, old) _ => ?_
  simp only [Function.comp]
  split <;> rfl

theorem lookup_setPlot (target : Plot) (q : Position) :
    (s.setPlot target).plots.lookup q =
      (s.plots.lookup q).map fun old => if q = s.position then target else old := by
  rw [State.setPlot]
  induction s.plots with
  | nil => rfl
  | cons entry plots ih =>
    obtain ⟨r, old⟩ := entry
    -- The key stays outside the distinction, which is about the stage alone.
    have key : (if r = s.position then (r, target) else (r, old)) =
        (r, if r = s.position then target else old) := by
      split <;> rfl
    simp only [List.map_cons, key, List.lookup_cons]
    by_cases same : q = r
    · simp [same]
    · rw [beq_false_of_ne same]
      exact ih

theorem mem_keys_of_plotHere? {stage : Plot} (found : s.plotHere? = some stage) :
    s.position ∈ s.plots.map Prod.fst := by
  obtain ⟨before, after, split, -⟩ := List.lookup_eq_some_iff.mp found
  rw [split]
  simp

/-- What the chores that are done leave of a farm. -/
structure Kept (f : Farm) (entries : List (Position × Chore)) (s : State) : Prop where
  inside : f.grid.Open s.position
  plots : (s.plots.map Prod.fst).Perm (f.grid.find plot)
  items : (s.items ++ gathered entries).Perm (f.grid.find item)
  collected : s.collected = UInt32.ofNat (gathered entries).length
  turns : ∀ p ∈ f.grid.find plot, cares p entries = (List.range (cares p entries).length).map Care.turn
  stages : ∀ p ∈ f.grid.find plot, s.plots.lookup p = some (Plot.grown (cares p entries).length)
  harvested : s.harvested = UInt32.ofNat (cycles entries (f.grid.find plot))

namespace Kept

theorem collect (kept : f.Kept entries s) (here : s.position ∈ s.items) :
    f.Kept (entries ++ [(s.position, .collect)])
      { s with items := s.items.erase s.position, collected := s.collected + 1 } := by
  have same : cycles (entries ++ [(s.position, .collect)]) (f.grid.find plot) =
      cycles entries (f.grid.find plot) := cycles_congr fun q _ => cares_collect
  refine ⟨kept.inside, kept.plots, ?_, ?_, ?_, ?_, ?_⟩
  · have last : (s.items.erase s.position ++ gathered entries ++ [s.position]).Perm
        (s.position :: s.items.erase s.position ++ gathered entries) := List.perm_append_singleton _ _
    have back := ((List.perm_cons_erase here).symm.append_right (gathered entries)).trans kept.items
    rw [gathered_collect, ← List.append_assoc]
    exact last.trans back
  · rw [gathered_collect, List.length_append, UInt32.ofNat_add, ← kept.collected]
    rfl
  · simpa only [cares_collect] using kept.turns
  · simpa only [cares_collect] using kept.stages
  · rw [same]
    exact kept.harvested

theorem tend (kept : f.Kept entries s) (ready : s.plotHere? = some care.source)
    (once : (f.grid.find plot).Nodup) :
    f.Kept (entries ++ [(s.position, .tend care)])
      { s.setPlot care.target with harvested := s.harvested + care.crops } := by
  have present : s.position ∈ f.grid.find plot := kept.plots.mem_iff.mp (mem_keys_of_plotHere? ready)
  -- The stage tells how often the plot has been tended, so what it is ready for is what is due.
  have due : care = Care.turn (cares s.position entries).length := by
    have stage := kept.stages s.position present
    rw [Plot.grown_eq] at stage
    exact Care.source_inj (Option.some.inj (ready.symm.trans stage))
  refine ⟨kept.inside, ?_, ?_, ?_, fun p among => ?_, fun p among => ?_, ?_⟩
  · exact keys_setPlot (s := s) care.target ▸ kept.plots
  · rw [gathered_tend]
    exact kept.items
  · rw [gathered_tend]
    exact kept.collected
  · by_cases here : s.position = p
    · subst here
      rw [cares_tend_self, List.length_append, List.length_singleton, List.range_succ, List.map_append,
        ← kept.turns _ among, List.map_singleton, ← due]
    · rw [cares_tend_of_ne here]
      exact kept.turns p among
  · rw [lookup_setPlot, kept.stages p among, Option.map_some]
    by_cases here : s.position = p
    · subst here
      rw [if_pos rfl, cares_tend_self, List.length_append, List.length_singleton, Plot.grown_succ, ← due]
    · rw [if_neg (Ne.symm here), cares_tend_of_ne here]
  · rw [cycles_tend once present due, UInt32.ofNat_add, UInt32.ofNat_toNat, ← kept.harvested]

theorem step (kept : f.Kept entries s) (applied : f.Applied op s result next)
    (once : (f.grid.find plot).Nodup) :
    f.Kept (entries ++ ((accomplished op result).map (Prod.mk s.position)).toList) next := by
  have inside := applied.isOpen kept.inside
  have nothing : entries ++ ((none : Option Chore).map (Prod.mk s.position)).toList = entries :=
    List.append_nil entries
  cases applied with
  | stays facing _ idle =>
    rw [accomplished_idle idle, nothing]
    exact { kept with inside }
  | walks _ idle =>
    rw [accomplished_idle idle, nothing]
    exact { kept with inside }
  | collides _ idle =>
    rw [accomplished_idle idle, nothing]
    exact { kept with inside }
  | refuses =>
    rw [accomplished, nothing]
    exact kept
  | @works chore _ _ asked did =>
    rw [accomplished_settle, asked]
    cases chore with
    | collect =>
      obtain ⟨here, rfl⟩ := does?_collect did
      exact kept.collect here
    | tend care =>
      obtain ⟨ready, rfl⟩ := does?_tend did
      exact kept.tend ready once

theorem carried (kept : f.Kept entries s) (once : (f.grid.find plot).Nodup) (pace : Pace) (ops : List Op) :
    f.Kept (entries ++ f.diary pace ops s) (Session.carried (f.game pace) ops s) := by
  induction ops generalizing entries s with
  | nil =>
    rw [diary, List.append_nil]
    exact kept
  | cons op ops ih =>
    rw [diary, ← List.append_assoc]
    exact ih (kept.step (f.applied pace op s) once)

end Kept

/-- The order of a farm after some chores. The farmer is on an open cell, and the plots are the cells where
plots were; each item is on its cell or has been collected there, once; each plot has been planted, watered
and harvested in turn, and stands as its last turn has left it. Both counts are exact as long as what they
count is a 32-bit number. -/
structure Orderly (f : Farm) (entries : List (Position × Chore)) (s : State) : Prop where
  inside : f.grid.Open s.position
  plots : ∀ p, p ∈ s.plots.map Prod.fst ↔ f.grid.get? p = some plot
  distinct : (s.plots.map Prod.fst).Nodup
  items : ∀ p, p ∈ s.items ++ gathered entries ↔ f.grid.get? p = some item
  once : (s.items ++ gathered entries).Nodup
  conserved : s.items.length + (gathered entries).length = f.grid.count item
  counted : s.collected = UInt32.ofNat (gathered entries).length
  collected : f.grid.count item < UInt32.size → s.items.length + s.collected.toNat = f.grid.count item
  turns : ∀ p, f.grid.get? p = some plot →
    cares p entries = (List.range (cares p entries).length).map Care.turn ∧
      s.plots.lookup p = some (Plot.grown (cares p entries).length)
  harvested : cycles entries (f.grid.find plot) < UInt32.size →
    s.harvested.toNat = cycles entries (f.grid.find plot)

theorem Kept.orderly (kept : f.Kept entries s) (even : f.grid.Even) (fits : f.grid.Fits) :
    f.Orderly entries s := by
  have onMap (cell : Char) (p : Position) : p ∈ f.grid.find cell ↔ f.grid.get? p = some cell :=
    Grid.mem_find_iff_get? even fits
  have distinct (cell : Char) : (f.grid.find cell).Nodup := Grid.nodup_find even fits
  have conserved : s.items.length + (gathered entries).length = f.grid.count item := by
    rw [← List.length_append, kept.items.length_eq, Grid.length_find]
  refine ⟨kept.inside, fun p => kept.plots.mem_iff.trans (onMap plot p),
    kept.plots.nodup_iff.mpr (distinct plot), fun p => kept.items.mem_iff.trans (onMap item p),
    kept.items.nodup_iff.mpr (distinct item), conserved, kept.collected, fun few => ?_, fun p found => ?_,
    fun few => ?_⟩
  · rw [kept.collected, UInt32.toNat_ofNat_of_lt' (by omega), conserved]
  · have among := (onMap plot p).mpr found
    exact ⟨kept.turns p among, kept.stages p among⟩
  · rw [kept.harvested, UInt32.toNat_ofNat_of_lt' few]

end BlockPlay.Farm

import BlockPlay.Proofs.Grid.Chores
import BlockPlay.Proofs.Grid.Reach
import BlockPlay.Proofs.Grid.Walk

/-!
What a farm can yield. The farmer gets to the cells that hang together with his start and to no other, and on the
way he can collect every item and tend every plot among them. So a farm can be won if and only if as many items as its
goal asks for, and a plot if it asks for a harvest, are connected to the start; a level is not checked for that.
-/
namespace BlockPlay

/-- Instructions that a game goes on with one after the other, until the last one wins it. -/
inductive Game.WonBy {σ : Type} (game : Game σ) : List Op → σ → Prop
  | last {op : Op} {s : σ} {message : String} (won : (game.apply op s).result = .ok (.won message)) :
      WonBy game [op] s
  | onward {op : Op} {ops : List Op} {s : σ} (ongoing : (game.apply op s).result = .ok .ongoing)
      (later : WonBy game ops (game.apply op s).state) : WonBy game (op :: ops) s

namespace Grid

variable {g : Grid} {p q : Position}

theorem Reaches.isOpen (reaches : g.Reaches p q) (inside : g.Open p) : g.Open q := by
  cases reaches with
  | refl => exact inside
  | tail _ leads => exact leads.2

theorem Leads.symm (leads : g.Leads p q) (inside : g.Open p) : g.Leads q p := by
  obtain ⟨⟨h, rfl⟩, -⟩ := leads
  have back : (p.step h true).step h false = p := p.step_back h true
  have returns := leads_step (g := g) (back.symm ▸ inside)
  rwa [back] at returns

theorem Reaches.symm (reaches : g.Reaches p q) (inside : g.Open p) : g.Reaches q p := by
  induction reaches with
  | refl => exact .refl
  | tail before leads ih => exact ih.head (leads.symm (Reaches.isOpen before inside))

end Grid

namespace Farm

variable {f : Farm} {pace : Pace} {op : Op} {ops : List Op} {s next : State} {result : Except Fault Outcome}
  {chore : Chore} {care : Care} {entries : List (Position × Chore)} {p q : Position}

section Bounds

theorem Applied.reaches (applied : f.Applied op s result next) : f.grid.Reaches s.position next.position := by
  cases applied with
  | stays => exact .refl
  | walks _ _ clear => exact clear.reaches
  | collides _ _ blocked => exact blocked.clear.reaches
  | works _ _ did =>
    rw [position_of_does? did]
    exact .refl
  | refuses => exact .refl

end Bounds

section Strategy

/-- The goal is met, or some instructions win from here on. -/
def Promising (f : Farm) (pace : Pace) (s : State) : Prop :=
  f.goal.metBy s ∨ ∃ ops, (f.game pace).WonBy ops s

/-- The instruction that asks for a chore. -/
def Chore.action : Chore → Action
  | collect => .collect
  | tend .plant => .plant
  | tend .water => .water
  | tend .harvest => .harvest

theorem apply_toward (block : BlockId) (h : Heading) :
    f.apply pace (.leaf block (s.facing.toward h)) s =
      ⟨.ok (f.settle { s with facing := h }), { s with facing := h }, pace.step⟩ := by
  simp only [Heading.toward, apply, s.facing.turn?_toward h]

theorem apply_ahead (block : BlockId) (clear : f.grid.Open (s.position.step s.facing true)) :
    f.apply pace (.leaf block (.move 1)) s =
      ⟨.ok (f.settle { s with position := s.position.step s.facing true }),
        { s with position := s.position.step s.facing true }, pace.step⟩ := by
  simp only [apply, move, Grid.walk_ahead clear]

theorem apply_chore (block : BlockId) (did : s.does? chore = some next) :
    f.apply pace (.leaf block chore.action) s = ⟨.ok (f.settle next), next, pace.step⟩ := by
  cases chore with
  | collect =>
    change collect? s = some next at did
    simp only [Chore.action, apply, work, did]
  | tend care =>
    cases care with
    | plant =>
      have planted : s.tend? .empty .seeded = some next := (does?_tend_of_no_crops rfl).symm.trans did
      simp only [Chore.action, apply, work, planted]
    | water =>
      have watered : s.tend? .seeded .watered = some next := (does?_tend_of_no_crops rfl).symm.trans did
      simp only [Chore.action, apply, work, watered]
    | harvest =>
      change harvest? s = some next at did
      simp only [Chore.action, apply, work, did]

namespace Promising

theorem before {op : Op} (answer : f.apply pace op s = ⟨.ok (f.settle next), next, pace.step⟩)
    (promising : f.Promising pace next) : f.Promising pace s := by
  have result : ((f.game pace).apply op s).result = .ok (f.settle next) := congrArg Answer.result answer
  have state : ((f.game pace).apply op s).state = next := congrArg Answer.state answer
  by_cases met : f.goal.metBy next
  · exact .inr ⟨[op], .last (result.trans (congrArg Except.ok (settle_of_met met)))⟩
  · obtain ⟨ops, won⟩ := promising.resolve_left met
    exact .inr ⟨op :: ops, .onward (result.trans (congrArg Except.ok (settle_of_unmet met))) (state ▸ won)⟩

theorem turned {h : Heading} (promising : f.Promising pace { s with facing := h }) : f.Promising pace s :=
  before (apply_toward ⟨"turn"⟩ h) promising

theorem walked_from (reaches : f.grid.Reaches p q) (promising : f.Promising pace { s with position := q })
    (facing : Heading) : f.Promising pace { s with position := p, facing } := by
  -- The way grows at its front: what is left of it must be promising with any heading.
  induction reaches using Relation.ReflTransGen.head_induction_on generalizing facing with
  | refl => exact turned (h := s.facing) promising
  | @head p _ leads _ ih =>
    obtain ⟨⟨h, rfl⟩, clear⟩ := leads
    exact turned (before (apply_ahead ⟨"go"⟩ clear) (ih h))

theorem walked (reaches : f.grid.Reaches s.position q) (promising : f.Promising pace { s with position := q }) :
    f.Promising pace s := walked_from reaches promising s.facing

theorem collected (here : s.position ∈ s.items)
    (promising : f.Promising pace { s with items := s.items.erase s.position, collected := s.collected + 1 }) :
    f.Promising pace s := by
  have did : s.does? .collect = some { s with items := s.items.erase s.position, collected := s.collected + 1 } :=
    if_pos here
  exact before (apply_chore ⟨"pick"⟩ did) promising

theorem tended (care : Care) (ready : s.plotHere? = some care.source)
    (promising : ∀ next : State, next.plotHere? = some care.target → next.collected = s.collected →
      next.harvested = s.harvested + care.crops → f.Promising pace next) : f.Promising pace s := by
  have did : s.does? (.tend care) =
      some { s.setPlot care.target with harvested := s.harvested + care.crops } := by
    rw [State.does?, State.tend?, if_pos ready]
    rfl
  refine before (apply_chore ⟨"tend"⟩ did) (promising _ ?_ rfl rfl)
  have stage : s.plots.lookup s.position = some care.source := ready
  change (s.setPlot care.target).plots.lookup s.position = _
  rw [lookup_setPlot, stage, Option.map_some, if_pos rfl]

/-- Different items can be collected one after the other, whatever the way from one to the next. -/
theorem gathered {cells : List Position} (distinct : cells.Nodup) (inside : f.grid.Open s.position)
    (within : ∀ p ∈ cells, f.grid.Reaches s.position p ∧ p ∈ s.items)
    (promising : ∀ next : State, f.grid.Reaches s.position next.position → next.plots = s.plots →
      next.collected = s.collected + UInt32.ofNat cells.length → next.harvested = s.harvested →
      f.Promising pace next) : f.Promising pace s := by
  induction cells generalizing s with
  | nil => exact promising s .refl rfl (UInt32.add_zero _).symm rfl
  | cons p cells ih =>
    obtain ⟨absent, distinct⟩ := List.nodup_cons.mp distinct
    obtain ⟨reaches, lies⟩ := within p List.mem_cons_self
    refine walked reaches (collected lies (ih distinct (reaches.isOpen inside) (fun q later => ?_)
      fun next onward plots count harvested => promising next (reaches.trans onward) plots ?_ harvested))
    · obtain ⟨there, remains⟩ := within q (List.mem_cons_of_mem p later)
      have other : q ≠ p := fun same => absent (same ▸ later)
      exact ⟨(reaches.symm inside).trans there, (List.mem_erase_of_ne other).mpr remains⟩
    · rw [count, List.length_cons, UInt32.ofNat_add, UInt32.add_assoc, UInt32.add_comm 1]
      rfl

/-- A plot bears one crop after the other. -/
theorem harvested (n : Nat) (here : s.plotHere? = some .empty)
    (promising : ∀ next : State, next.collected = s.collected →
      next.harvested = s.harvested + UInt32.ofNat n → f.Promising pace next) : f.Promising pace s := by
  induction n generalizing s with
  | zero => exact promising s rfl (UInt32.add_zero _).symm
  | succ n ih =>
    refine tended .plant here fun a seeded keptA noneA => ?_
    refine tended .water seeded fun b watered keptB noneB => ?_
    refine tended .harvest watered fun c empty keptC crop => ?_
    refine ih empty fun next kept crops => promising next ?_ ?_
    · rw [kept, keptC, keptB, keptA]
    · rw [crops, crop, noneB, noneA, UInt32.ofNat_add, UInt32.add_comm (UInt32.ofNat n), ← UInt32.add_assoc]
      simp only [Care.crops, UInt32.add_zero]
      rfl

end Promising

end Strategy

section Levels

variable {rows : List (List Char)} {facing : Heading} {goal : Goal}

end Levels

end Farm

end BlockPlay

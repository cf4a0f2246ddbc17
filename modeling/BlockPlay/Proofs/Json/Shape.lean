import BlockPlay.Proofs.Json.Record

/-!
The shapes of values that readers accept. A reader of lists, maps or records accepts a value if the readers of the
parts accept its parts, and if a record lacks nothing that must be there; members that belong to no place of a
record make no difference.
-/
namespace BlockPlay.Json

theorem Context.deep_value : Context.value.Deep := rfl

namespace Value

theorem Proper.items {items : List Value} (proper : (array items).Proper) : ∀ v ∈ items, v.Proper := by
  obtain ⟨u, means⟩ := proper
  rw [tree, trees_eq] at means
  obtain ⟨-, vs, all, -⟩ := Tree.means_array_iff.mp means
  intro v inside
  obtain ⟨u, -, part⟩ := exists_right_of_mem all (List.mem_map_of_mem inside)
  exact ⟨u, part⟩

theorem Proper.members {members : List (String × Value)} (proper : (object members).Proper) :
    Entries.Apart members ∧ ∀ m ∈ members, m.2.Proper := by
  obtain ⟨u, means⟩ := proper
  rw [tree, treeMembers_eq] at means
  obtain ⟨-, entries, all, -, -⟩ := Tree.means_object_iff.mp means
  constructor
  · exact (List.pairwise_map.mp means.distinct.1).imp fun unequal same => unequal (congrArg Except.ok same)
  · intro m inside
    obtain ⟨e, -, names⟩ := exists_right_of_mem all (List.mem_map_of_mem inside)
    exact ⟨e.2, names.means⟩

theorem proper_iff {v : Value} : v.Proper ↔ v.Sound ∧ v.tree.Distinct := by
  constructor
  · intro proper
    exact ⟨proper.sound, proper.means.distinct⟩
  · rintro ⟨sound, distinct⟩
    have read := readValue_tree v (Context.deep_value.allows v.nesting)
    exact ⟨v.settle, read, v.sound_tree.mpr sound, distinct⟩

theorem Proper.skips {v : Value} (proper : v.Proper) : v.tree.flaw? = none := proper.means.flaw?_eq_none

end Value

theorem exists_forall₂_iff {α β : Type} {r : α → β → Prop} {as : List α} :
    (∃ bs, List.Forall₂ r as bs) ↔ ∀ a ∈ as, ∃ b, r a b := by
  induction as with
  | nil => exact iff_of_true ⟨[], .nil⟩ (List.forall_mem_nil _)
  | cons a as ih =>
    rw [List.forall_mem_cons, ← ih]
    constructor
    · rintro ⟨_, _ | ⟨first, others⟩⟩
      exact ⟨⟨_, first⟩, _, others⟩
    · rintro ⟨⟨b, first⟩, bs, others⟩
      exact ⟨b :: bs, .cons first others⟩

theorem exists_forall₂_treeMembers_iff {α : Type} {r : Literal × Tree → α → Prop} {members : List (String × Value)} :
    (∃ as, List.Forall₂ r (Value.treeMembers members) as) ↔ ∀ m ∈ members, ∃ a, r (⟨.ok m.1, none⟩, m.2.tree) a := by
  rw [exists_forall₂_iff, Value.treeMembers_eq, List.forall_mem_map]

/-- A place in a record, and what kind of value may stand there. -/
structure Place (κ : Type) where
  name : String
  required : Bool
  kind : κ

section Shapes

variable {κ : Type}

/-- Items that take the places of a record in their order. Places at the end may stay free if they need no value. -/
inductive Items (p : κ → Value → Prop) : List (Place κ) → List Value → Prop where
  | all : Items p [] []
  | without {place : Place κ} {places : List (Place κ)} (optional : place.required = false)
      (others : Items p places []) : Items p (place :: places) []
  | item {place : Place κ} {places : List (Place κ)} {v : Value} {items : List Value} (fits : p place.kind v)
      (others : Items p places items) : Items p (place :: places) (v :: items)

/-- A record: an object in which no required name is missing and the values are of the kinds of their places, or a
list of the values. -/
inductive RecordOf (places : List (Place κ)) (p : κ → Value → Prop) : Value → Prop where
  | object {members : List (String × Value)}
      (complete : ∀ place ∈ places, place.required = true → place.name ∈ members.map Prod.fst)
      (fits : ∀ place ∈ places, ∀ v, (place.name, v) ∈ members → p place.kind v) :
      RecordOf places p (.object members)
  | array {items : List Value} (fits : Items p places items) : RecordOf places p (.array items)

end Shapes

namespace Tree

section Accepting

variable {α κ : Type} {n : Nat} {read : Context → Tree → Except Problem α} {p : Value → Prop}

/-- The reader accepts those values below a size that have a property. -/
def Accepts (n : Nat) (read : Context → Tree → Except Problem α) (p : Value → Prop) : Prop :=
  ∀ ⦃c : Context⦄ ⦃v : Value⦄, c.Deep → v.Proper → sizeOf v.tree < n → ((∃ a, read c v.tree = .ok a) ↔ p v)

theorem Accepts.mono {m : Nat} (accepts : Accepts n read p) (less : m ≤ n) : Accepts m read p :=
  fun _ _ deep proper small => accepts deep proper (Nat.lt_of_lt_of_le small less)

theorem accepts_zero : Accepts 0 read p := fun _ _ _ _ small => absurd small (Nat.not_lt_zero _)

theorem Accepts.congr {q : Value → Prop} (accepts : Accepts n read p) (same : ∀ v, p v ↔ q v) : Accepts n read q :=
  fun _ v deep proper small => (accepts deep proper small).trans (same v)

theorem accepts_readString : Accepts n (fun _ => readString) fun v => ∃ s, v = .string s := by
  intro c v deep proper small
  cases v with
  | string s => exact iff_of_true ⟨s, rfl⟩ ⟨s, rfl⟩
  | _ => simp [Value.tree, readString, wrong_ne_ok]

theorem accepts_readValue : Accepts n readValue fun _ => True :=
  fun _ v deep proper _ => iff_of_true ⟨v.settle, proper.means.reads deep⟩ trivial

theorem isNull_tree_iff {v : Value} : v.tree.isNull = true ↔ v = .null := by
  cases v <;> simp [Value.tree, isNull]

theorem Accepts.readNullable (accepts : Accepts n read p) :
    Accepts n (readNullable read) fun v => v = .null ∨ p v := by
  intro c v deep proper small
  simp only [readNullable_eq_ok_iff]
  constructor
  · rintro ⟨_, ⟨null, -⟩ | ⟨-, a, reads, -⟩⟩
    · exact .inl (isNull_tree_iff.mp null)
    · exact .inr ((accepts deep proper small).mp ⟨a, reads⟩)
  · intro fits
    cases null : v.tree.isNull with
    | true => exact ⟨none, .inl ⟨rfl, rfl⟩⟩
    | false =>
      have given : v ≠ .null := fun same => by
        rw [isNull_tree_iff.mpr same] at null
        cases null
      obtain ⟨a, reads⟩ := (accepts deep proper small).mpr (fits.resolve_left given)
      exact ⟨some a, .inr ⟨rfl, a, reads, rfl⟩⟩

theorem tree_mem_trees {items : List Value} {v : Value} (inside : v ∈ items) : v.tree ∈ Value.trees items :=
  Value.trees_eq items ▸ List.mem_map_of_mem inside

theorem tree_mem_treeMembers {members : List (String × Value)} {m : String × Value} (inside : m ∈ members) :
    (⟨.ok m.1, none⟩, m.2.tree) ∈ Value.treeMembers members :=
  Value.treeMembers_eq members ▸ List.mem_map_of_mem inside

theorem size_item {items : List Value} {v : Value} (inside : v ∈ items) :
    sizeOf v.tree < sizeOf (Value.array items).tree := item_small (tree_mem_trees inside)

theorem size_member {members : List (String × Value)} {m : String × Value} (inside : m ∈ members) :
    sizeOf m.2.tree < sizeOf (Value.object members).tree := member_small (tree_mem_treeMembers inside)

theorem Accepts.readMap (accepts : Accepts n read p) :
    Accepts (n + 1) (fun c t => t.readMap c Entries.put .ok (anySize read)) fun v =>
      ∃ members, v = .object members ∧ ∀ m ∈ members, p m.2 := by
  intro c v deep proper small
  cases v with
  | object members =>
    have each (m : String × Value) (inside : m ∈ members) :=
      accepts deep (proper.members.2 m inside) (by have := size_member inside; omega)
    have parts : (∃ entries, List.Forall₂
        (fun (m : Literal × Tree) (e : String × α) => m.1.spelled = .ok e.1 ∧ read c m.2 = .ok e.2)
        (Value.treeMembers members) entries) ↔ ∀ m ∈ members, p m.2 := by
      rw [exists_forall₂_treeMembers_iff]
      refine forall₂_congr fun m inside => ?_
      rw [← each m inside]
      constructor
      · rintro ⟨e, -, reads⟩
        exact ⟨e.2, reads⟩
      · rintro ⟨a, reads⟩
        exact ⟨(m.1, a), rfl, reads⟩
    constructor
    · rintro ⟨out, reads⟩
      obtain ⟨_, entries, ⟨⟩, all, -⟩ := (readMap_eq_ok_iff deep).mp reads
      exact ⟨members, rfl, parts.mp ⟨entries, all⟩⟩
    · rintro ⟨_, ⟨⟩, fits⟩
      obtain ⟨entries, all⟩ := parts.mpr fits
      exact ⟨_, (readMap_eq_ok_iff deep).mpr ⟨_, entries, rfl, all, rfl⟩⟩
  | _ => simp [Value.tree, Tree.readMap, wrong_ne_ok]

section Records

open Slot

variable {slots : List (Slot α)} {places : List (Place κ)} {c : Context} {p : κ → Value → Prop}

/-- A slot for a place, with a reader that accepts what may stand there. -/
structure Slot.Serves (n : Nat) (p : κ → Value → Prop) (s : Slot α) (place : Place κ) : Prop where
  name : s.name = place.name
  required : s.required = place.required
  accepts : Accepts n s.read (p place.kind)

theorem named?_eq_some_iff (distinct : slots.Pairwise fun s r => s.name ≠ r.name) {name : String} {s : Slot α} :
    named? slots name = some s ↔ s ∈ slots ∧ s.name = name := by
  induction distinct with
  | nil => simp [named?]
  | @cons first slots others _ ih =>
    rw [named?, List.find?_cons]
    split
    next same =>
      rw [beq_iff_eq] at same
      constructor
      · rintro ⟨⟩
        exact ⟨List.mem_cons_self, same⟩
      · rintro ⟨slot, named⟩
        rcases List.mem_cons.mp slot with rfl | later
        · rfl
        · exact absurd (same.trans named.symm) (others s later)
    next different =>
      have other : first.name ≠ name := beq_eq_false_iff_ne.mp different
      change named? slots name = some s ↔ _
      rw [ih, List.mem_cons]
      refine and_congr_left fun named => (or_iff_right ?_).symm
      rintro rfl
      exact other named

theorem exists_acts_iff (distinct : slots.Pairwise fun s r => s.name ≠ r.name) {m : String × Value}
    (proper : m.2.Proper) : (∃ act, Acts slots c (⟨.ok m.1, none⟩, m.2.tree) act) ↔
      ∀ s ∈ slots, s.name = m.1 → ∃ x, s.read c m.2.tree = .ok x := by
  constructor
  · rintro ⟨act, spelled, does⟩ s slot named
    rw [(named?_eq_some_iff distinct).mpr ⟨slot, named.trans (Except.ok.inj spelled)⟩] at does
    obtain ⟨x, read, -⟩ := does
    exact ⟨x, read⟩
  · intro reads
    cases found : named? slots m.1 with
    | none =>
      refine ⟨(m.1, id), rfl, ?_⟩
      rw [found]
      exact ⟨proper.skips, rfl⟩
    | some s =>
      obtain ⟨slot, named⟩ := (named?_eq_some_iff distinct).mp found
      obtain ⟨x, read⟩ := reads s slot named
      refine ⟨(m.1, s.set x), rfl, ?_⟩
      rw [found]
      exact ⟨x, read, rfl⟩

theorem names_of_acts {members : List (String × Value)} {acts : List (String × (α → α))}
    (all : List.Forall₂ (Acts slots c) (Value.treeMembers members) acts) :
    acts.map Prod.fst = members.map Prod.fst := by
  induction members generalizing acts with
  | nil =>
    cases all
    rfl
  | cons m members ih =>
    cases all with
    | cons first others => rw [List.map_cons, List.map_cons, ih others, Except.ok.inj first.1]

theorem exists_readObject_iff (deep : c.Deep) (title : String) (start : α)
    (distinct : slots.Pairwise fun s r => s.name ≠ r.name) {members : List (String × Value)}
    (proper : (Value.object members).Proper) :
    (∃ a, (Value.object members).tree.readRecord c title start (slots.map toField) = .ok a) ↔
      (∀ s ∈ slots, s.required = true → s.name ∈ members.map Prod.fst) ∧
        ∀ s ∈ slots, ∀ v, (s.name, v) ∈ members → ∃ x, s.read c v.tree = .ok x := by
  obtain ⟨apart, each⟩ := proper.members
  have unlike := pairwise_treeMembers apart
  have acting : (∃ acts, List.Forall₂ (Acts slots c) (Value.treeMembers members) acts) ↔
      ∀ s ∈ slots, ∀ v, (s.name, v) ∈ members → ∃ x, s.read c v.tree = .ok x := by
    rw [exists_forall₂_treeMembers_iff]
    constructor
    · intro all s slot v inside
      exact (exists_acts_iff distinct (each _ inside)).mp (all _ inside) s slot rfl
    · intro all m inside
      refine (exists_acts_iff distinct (each m inside)).mpr fun s slot named => all s slot m.2 ?_
      rwa [named]
  constructor
  · rintro ⟨a, reads⟩
    obtain ⟨-, acts, all, given, -⟩ := (readRecord_distinct_iff deep unlike).mp reads
    exact ⟨names_of_acts all ▸ given, acting.mp ⟨acts, all⟩⟩
  · rintro ⟨given, fits⟩
    obtain ⟨acts, all⟩ := acting.mpr fits
    exact ⟨_, (readRecord_distinct_iff deep unlike).mpr ⟨rfl, acts, all, (names_of_acts all).symm ▸ given, rfl⟩⟩

theorem exists_readElements_iff (deep : c.Deep) {title : String} {count index : Nat} {m : Nat}
    (serves : List.Forall₂ (Slot.Serves n p) slots places) {items : List Value} (proper : ∀ v ∈ items, v.Proper)
    (sizes : ∀ v ∈ items, sizeOf v.tree < n) {small : ∀ t ∈ Value.trees items, sizeOf t < m} (a : α) :
    (∃ b, readElements c title count none index (slots.map toField) (Value.trees items) small a = .ok ([], b)) ↔
      Items p places items := by
  induction serves generalizing items index a with
  | nil =>
    cases items with
    | nil => exact iff_of_true ⟨a, rfl⟩ .all
    | cons v items => exact iff_of_false (by simp [readElements, Value.trees]) nofun
  | @cons s place slots places here _ ih =>
    have required : (s.toField (n := m)).required = place.required := here.required
    cases items with
    | nil =>
      simp only [Value.trees, List.map_cons, readElements, failOn, required]
      cases needed : place.required with
      | true =>
        refine iff_of_false ?_ ?_
        · rintro ⟨b, ⟨⟩⟩
        · rintro (_ | ⟨optional, -⟩ | _)
          rw [needed] at optional
          cases optional
      | false =>
        refine (ih proper sizes a).trans ⟨.without needed, ?_⟩
        rintro (_ | ⟨-, others⟩ | _)
        exact others
    | cons v items =>
      obtain ⟨first, later⟩ := List.forall_mem_cons.mp proper
      obtain ⟨least, rest⟩ := List.forall_mem_cons.mp sizes
      have accepted := here.accepts deep first least
      simp only [Value.trees, List.map_cons, readElements, bind_eq_ok_iff, toField_read_eq_ok_iff]
      constructor
      · rintro ⟨b, _, ⟨x, reads, rfl⟩, others⟩
        exact .item (accepted.mp ⟨x, reads⟩) ((ih later rest _).mp ⟨b, others⟩)
      · rintro (_ | _ | ⟨fits, others⟩)
        obtain ⟨x, reads⟩ := accepted.mpr fits
        obtain ⟨b, others⟩ := (ih later rest (s.set x a)).mpr others
        exact ⟨b, _, ⟨x, reads, rfl⟩, others⟩

theorem exists_readArray_iff (deep : c.Deep) (title : String) (start : α)
    (serves : List.Forall₂ (Slot.Serves n p) slots places) {items : List Value}
    (proper : (Value.array items).Proper) (sizes : ∀ v ∈ items, sizeOf v.tree < n) :
    (∃ a, (Value.array items).tree.readRecord c title start (slots.map toField) = .ok a) ↔
      Items p places items := by
  have read (a : α) : (Value.array items).tree.readRecord c title start (slots.map toField) = .ok a ↔ _ :=
    readRecord_array_iff deep fun _ => item_small
  simp only [read, true_and]
  exact exists_readElements_iff deep serves proper.items sizes start

/-- A record reader whose slots serve the places of a record accepts just those records. -/
theorem accepts_readRecord (title : String) (start : α) (distinct : slots.Pairwise fun s r => s.name ≠ r.name)
    (serves : List.Forall₂ (Slot.Serves n p) slots places) :
    Accepts (n + 1) (fun c t => t.readRecord c title start (slots.map toField)) (RecordOf places p) := by
  intro c v deep proper small
  cases v with
  | object members =>
    have size {m : String × Value} (inside : m ∈ members) : sizeOf m.2.tree < n := by
      have smaller := size_member inside
      omega
    have each := proper.members.2
    rw [exists_readObject_iff deep title start distinct proper]
    constructor
    · rintro ⟨given, reads⟩
      refine .object (fun place inside needed => ?_) fun place inside v present => ?_
      all_goals obtain ⟨s, slot, serving⟩ := exists_left_of_mem serves inside
      · exact serving.name ▸ given s slot (serving.required.trans needed)
      · refine (serving.accepts deep (each _ present) (size present)).mp (reads s slot v ?_)
        rwa [serving.name]
    · rintro (⟨complete, fits⟩ | _)
      refine ⟨fun s slot needed => ?_, fun s slot v present => ?_⟩
      all_goals obtain ⟨place, inside, serving⟩ := exists_right_of_mem serves slot
      · exact serving.name ▸ complete place inside (serving.required.symm.trans needed)
      · refine (serving.accepts deep (each _ present) (size present)).mpr (fits place inside v ?_)
        rwa [← serving.name]
  | array items =>
    have sizes (v : Value) (inside : v ∈ items) : sizeOf v.tree < n := by
      have smaller := size_item inside
      omega
    rw [exists_readArray_iff deep title start serves proper sizes]
    constructor
    · exact .array
    · rintro (_ | fits)
      exact fits
  | _ =>
    refine iff_of_false ?_ nofun
    rintro ⟨a, reads⟩
    rcases readRecord_container reads with ⟨members, flaw, same⟩ | ⟨items, flaw, same⟩ <;> cases same

end Records

end Accepting

end Tree

end BlockPlay.Json

import BlockPlay.Proofs.Json.Meaning

/-!
Readers that follow the meaning of a tree: what they find in it they find in every tree with the same meaning,
so the order of the members of an object does not matter to them, nor does the source. Readers of lists, maps
and records follow the meaning if the readers of their parts do.
-/
namespace BlockPlay.Json.Tree

section Following

variable {α β κ : Type} {n : Nat} {read : Context → Tree → Except Problem α}

/-- What the reader finds in a tree below a size it finds in every tree with the same meaning. -/
def Follows (n : Nat) (read : Context → Tree → Except Problem α) : Prop :=
  ∀ ⦃c c' : Context⦄ ⦃t t' : Tree⦄ ⦃v : Value⦄ ⦃a : α⦄, c.Deep → c'.Deep → sizeOf t < n → t.Means v →
    t'.Means v → read c t = .ok a → read c' t' = .ok a

theorem Follows.mono {m : Nat} (follows : Follows n read) (less : m ≤ n) : Follows m read :=
  fun _ _ _ _ _ _ deep deep' small => follows deep deep' (Nat.lt_of_lt_of_le small less)

theorem follows_zero : Follows 0 read := fun _ _ _ _ _ _ _ _ small => absurd small (Nat.not_lt_zero _)

theorem follows_readString : Follows n fun _ => readString := by
  intro c c' t t' v text deep deep' small means means' reads
  have same := (means.reads deep).symm.trans (readString_eq_ok_iff.mp reads)
  cases same
  exact readString_eq_ok_iff.mpr (means'.reads deep')

theorem follows_readValue : Follows n readValue := by
  intro c c' t t' v w deep deep' small means means' reads
  have same := (means.reads deep).symm.trans reads
  cases same
  exact means'.reads deep'

/-- A reader to which nothing stands for what is left out. -/
def readNullable (read : Context → Tree → Except Problem α) (c : Context) (t : Tree) :
    Except Problem (Option α) :=
  if t.isNull then .ok none else (read c t).map some

theorem readNullable_eq_ok_iff {c : Context} {t : Tree} {found : Option α} :
    readNullable read c t = .ok found ↔
      t.isNull = true ∧ found = none ∨ t.isNull = false ∧ ∃ a, read c t = .ok a ∧ found = some a := by
  rw [readNullable]
  cases t.isNull with
  | true => simp [eq_comm]
  | false => simpa [eq_comm] using map_eq_ok_iff (f := some)

theorem Follows.readNullable (follows : Follows n read) : Follows n (readNullable read) := by
  intro c c' t t' v found deep deep' small means means' reads
  have agree : t.isNull = t'.isNull := by
    rw [Bool.eq_iff_iff, isNull_iff, isNull_iff, means.reads deep, means'.reads deep']
  refine readNullable_eq_ok_iff.mpr ?_
  rcases readNullable_eq_ok_iff.mp reads with ⟨null, rfl⟩ | ⟨given, a, first, rfl⟩
  · exact .inl ⟨agree ▸ null, rfl⟩
  · exact .inr ⟨agree ▸ given, a, follows deep deep' small means means' first, rfl⟩

theorem readItems_eq_ok_iff {c : Context} {items : List Tree} {small : ∀ t ∈ items, sizeOf t < n} {as : List α} :
    readItems c (anySize read) items small = .ok as ↔
      List.Forall₂ (fun t a => read c t = .ok a) items as := by
  induction items generalizing as with
  | nil => cases as <;> simp [readItems]
  | cons t rest ih =>
    simp only [readItems, anySize, bind_eq_ok_iff, pure, Except.pure, Except.ok.injEq]
    constructor
    · rintro ⟨a, first, others, reads, rfl⟩
      exact .cons first (ih.mp reads)
    · rintro (_ | ⟨first, others⟩)
      exact ⟨_, first, _, ih.mpr others, rfl⟩

theorem readList_eq_ok_iff {c : Context} (deep : c.Deep) {t : Tree} {as : List α} :
    t.readList c (anySize read) = .ok as ↔
      ∃ items, t = .array items none ∧ List.Forall₂ (fun t a => read c t = .ok a) items as := by
  cases t with
  | array items flaw =>
    simp only [readList, deep.enter, bind_eq_ok_iff, readItems_eq_ok_iff, failOn_eq_ok_iff, pure, Except.pure,
      Except.ok.injEq]
    constructor
    · rintro ⟨_, rfl, _, all, -, rfl, rfl⟩
      exact ⟨items, rfl, all⟩
    · rintro ⟨_, ⟨⟩, all⟩
      exact ⟨c, rfl, as, all, (), rfl, rfl⟩
  | _ => simp [readList, wrong_ne_ok]

theorem readEntries_eq_ok_iff {c : Context} {members : List (Literal × Tree)}
    {small : ∀ m ∈ members, sizeOf m.2 < n} {found out : Entries α} :
    readEntries c Entries.put .ok (anySize read) found members small = .ok out ↔
      ∃ entries, List.Forall₂ (fun m e => m.1.spelled = .ok e.1 ∧ read c m.2 = .ok e.2) members entries ∧
        out = Entries.fill found entries := by
  induction members generalizing found with
  | nil => simp [readEntries, Entries.fill, eq_comm]
  | cons m rest ih =>
    simp only [readEntries, anySize, bind_eq_ok_iff, Literal.read_eq_ok_iff]
    constructor
    · rintro ⟨name, spelled, _, ⟨⟩, a, first, reads⟩
      obtain ⟨entries, others, filled⟩ := ih.mp reads
      exact ⟨(name, a) :: entries, .cons ⟨spelled, first⟩ others, filled⟩
    · rintro ⟨_, _ | ⟨⟨spelled, first⟩, others⟩, filled⟩
      exact ⟨_, spelled, _, rfl, _, first, ih.mpr ⟨_, others, filled⟩⟩

theorem readMap_eq_ok_iff {c : Context} (deep : c.Deep) {t : Tree} {out : Entries α} :
    t.readMap c Entries.put .ok (anySize read) = .ok out ↔
      ∃ members entries, t = .object members none ∧
        List.Forall₂ (fun m e => m.1.spelled = .ok e.1 ∧ read c m.2 = .ok e.2) members entries ∧
          out = Entries.fill [] entries := by
  cases t with
  | object members flaw =>
    simp only [readMap, deep.enter, bind_eq_ok_iff, readEntries_eq_ok_iff, failOn_eq_ok_iff, pure, Except.pure,
      Except.ok.injEq]
    constructor
    · rintro ⟨_, rfl, _, ⟨entries, all, rfl⟩, -, rfl, rfl⟩
      exact ⟨members, entries, rfl, all, rfl⟩
    · rintro ⟨_, entries, ⟨⟩, all, rfl⟩
      exact ⟨c, rfl, _, ⟨entries, all, rfl⟩, (), rfl, rfl⟩
  | _ => simp [readMap, wrong_ne_ok]

theorem Follows.readList (follows : Follows n read) :
    Follows (n + 1) fun c t => t.readList c (anySize read) := by
  intro c c' t t' v as deep deep' small means means' reads
  obtain ⟨items, rfl, all⟩ := (readList_eq_ok_iff deep).mp reads
  obtain ⟨-, vs, each, rfl⟩ := means_array_iff.mp means
  obtain ⟨items', rfl, each'⟩ := means'.exists_array
  refine (readList_eq_ok_iff deep').mpr ⟨items', rfl, ?_⟩
  have inside := forall₂_of_mem all fun t item a _ holds => And.intro item holds
  have back : List.Forall₂ (flip Means) vs items := .flip each
  have found : List.Forall₂ (fun v a => ∀ t', t'.Means v → read c' t' = .ok a) vs as :=
    forall₂_trans back inside fun v t a means holds t' means' => by
      have smaller := @item_small _ none _ holds.1
      exact follows deep deep' (by omega) means means' holds.2
  exact forall₂_trans each' found fun t' v a means' holds => holds t' means'

theorem Follows.readMap (follows : Follows n read) :
    Follows (n + 1) fun c t => t.readMap c Entries.put .ok (anySize read) := by
  intro c c' t t' v out deep deep' small means means' reads
  obtain ⟨members, entries, rfl, all, rfl⟩ := (readMap_eq_ok_iff deep).mp reads
  obtain ⟨-, values, -, -, rfl⟩ := means_object_iff.mp means
  obtain ⟨others, values', rfl, -, -, -⟩ := means'.exists_object
  obtain ⟨entries', perm, all'⟩ := means.transfer means' all
    (q := fun m e => m.1.spelled = .ok e.1 ∧ read c' m.2 = .ok e.2) fun m inside m' e a names names' holds => by
      have same := names.spelled.symm.trans holds.1
      have smaller := @member_small _ none _ inside
      exact ⟨names'.spelled.trans same, follows deep deep' (by omega) names.means names'.means holds.2⟩
  have apart : Entries.Apart entries' :=
    (pairwise_spelled_iff (all'.imp fun _ _ holds => holds.1)).mp means'.distinct.1
  exact (readMap_eq_ok_iff deep').mpr ⟨others, entries', rfl, all', (Entries.fill_eq_of_perm apart perm).symm⟩

end Following

/-- A field of a record whose value is read by itself and then set. -/
structure Slot (α : Type) where
  {β : Type}
  name : String
  required : Bool
  read : Context → Tree → Except Problem β
  set : β → α → α

namespace Slot

variable {α : Type} {n : Nat}

def toField (s : Slot α) : Field n α := field s.name s.required s.read s.set

/-- The slot of a name. -/
def named? (slots : List (Slot α)) (name : String) : Option (Slot α) := slots.find? (·.name == name)

/-- The name of a member, and what it does to the record. -/
def Acts (slots : List (Slot α)) (c : Context) (m : Literal × Tree) (act : String × (α → α)) : Prop :=
  m.1.spelled = .ok act.1 ∧
    match named? slots act.1 with
    | none => m.2.flaw? = none ∧ act.2 = id
    | some s => ∃ x, s.read c m.2 = .ok x ∧ act.2 = s.set x

/-- Slots with different names may be set in any order. -/
def Independent (slots : List (Slot α)) : Prop :=
  ∀ s ∈ slots, ∀ r ∈ slots, s.name ≠ r.name → ∀ x y a, s.set x (r.set y a) = r.set y (s.set x a)

/-- The names of slots that were met, with one more. -/
def note (slots : List (Slot α)) (seen : List String) (name : String) : List String :=
  if (named? slots name).isSome then name :: seen else seen

def noted (slots : List (Slot α)) (seen : List String) (acts : List (String × (α → α))) : List String :=
  acts.foldl (fun seen act => note slots seen act.1) seen

/-- The acts one after the other. -/
def perform (start : α) (acts : List (String × (α → α))) : α := acts.foldl (fun a act => act.2 a) start

end Slot

section Records

open Slot

variable {α : Type} {n : Nat} {slots : List (Slot α)} {c : Context}

theorem find?_toField (name : String) :
    (slots.map (toField (n := n))).find? (·.name == name) = (named? slots name).map toField :=
  List.find?_map ..

theorem toField_read_eq_ok_iff {s : Slot α} {t : Tree} {small : sizeOf t < n} {a b : α} :
    s.toField.read c t small a = .ok b ↔ ∃ x, s.read c t = .ok x ∧ b = s.set x a := by
  rw [toField, field, map_eq_ok_iff]
  simp only [eq_comm]

theorem mem_note {seen : List String} {name other : String} (inside : other ∈ note slots seen name) :
    other = name ∨ other ∈ seen := by
  rw [note] at inside
  split at inside
  next => exact List.mem_cons.mp inside
  next => exact .inr inside

theorem mem_noted {s : Slot α} (slot : s ∈ slots) (seen : List String) (acts : List (String × (α → α))) :
    s.name ∈ noted slots seen acts ↔ s.name ∈ acts.map Prod.fst ∨ s.name ∈ seen := by
  have known : (named? slots s.name).isSome = true := List.find?_isSome.mpr ⟨s, slot, beq_self_eq_true _⟩
  induction acts generalizing seen with
  | nil => simp [noted]
  | cons act acts ih =>
    have first : s.name ∈ note slots seen act.1 ↔ s.name = act.1 ∨ s.name ∈ seen := by
      refine ⟨mem_note, ?_⟩
      rintro (same | old)
      · rw [note, ← same, if_pos known]
        exact List.mem_cons_self
      · rw [note]
        split
        next => exact List.mem_cons_of_mem _ old
        next => exact old
    calc s.name ∈ noted slots (note slots seen act.1) acts
      _ ↔ s.name ∈ acts.map Prod.fst ∨ s.name ∈ note slots seen act.1 := ih _
      _ ↔ s.name ∈ acts.map Prod.fst ∨ s.name = act.1 ∨ s.name ∈ seen := or_congr_right first
      _ ↔ s.name ∈ (act :: acts).map Prod.fst ∨ s.name ∈ seen := by
        rw [List.map_cons, List.mem_cons, or_left_comm, or_assoc]

theorem readMembers_cons_iff {m : Literal × Tree} {rest : List (Literal × Tree)}
    {small : ∀ m' ∈ m :: rest, sizeOf m'.2 < n} {seen : List String} {a : α} {out : List String × α} :
    readMembers c (slots.map toField) (m :: rest) small seen a = .ok out ↔
      ∃ act, Acts slots c m act ∧ (named? slots act.1 = none ∨ act.1 ∉ seen) ∧
        readMembers c (slots.map toField) rest (fun m' inside => small m' (List.mem_cons_of_mem m inside))
          (note slots seen act.1) (act.2 a) = .ok out := by
  obtain ⟨key, t⟩ := m
  simp only [readMembers, bind_eq_ok_iff, Literal.read_eq_ok_iff, find?_toField]
  constructor
  · rintro ⟨name, spelled, reads⟩
    cases found : named? slots name with
    | none =>
      rw [found] at reads
      obtain ⟨_, whole, reads⟩ := bind_eq_ok_iff.mp reads
      refine ⟨(name, id), ⟨spelled, ?_⟩, .inl found, ?_⟩
      · rw [found]
        exact ⟨failOn_eq_ok_iff.mp whole, rfl⟩
      · rw [note, found]
        exact reads
    | some s =>
      rw [found] at reads
      simp only [Option.map_some] at reads
      split at reads
      next => cases reads
      next new =>
        obtain ⟨_, set, reads⟩ := bind_eq_ok_iff.mp reads
        obtain ⟨x, read, rfl⟩ := toField_read_eq_ok_iff.mp set
        refine ⟨(name, s.set x), ⟨spelled, ?_⟩, .inr fun seen => new (List.contains_iff_mem.mpr seen), ?_⟩
        · rw [found]
          exact ⟨x, read, rfl⟩
        · rw [note, found]
          exact reads
  · rintro ⟨⟨name, act⟩, ⟨spelled, acts⟩, new, reads⟩
    refine ⟨name, spelled, ?_⟩
    cases found : named? slots name with
    | none =>
      simp only [note, found] at acts reads
      obtain ⟨whole, rfl⟩ := acts
      exact bind_eq_ok_iff.mpr ⟨(), failOn_eq_ok_iff.mpr whole, reads⟩
    | some s =>
      simp only [note, found] at acts reads
      obtain ⟨x, read, rfl⟩ := acts
      have absent : ¬ seen.contains name = true := by simpa [found] using new
      simp only [Option.map_some, if_neg absent]
      exact bind_eq_ok_iff.mpr ⟨s.set x a, toField_read_eq_ok_iff.mpr ⟨x, read, rfl⟩, reads⟩

theorem readMembers_eq_ok_iff {members : List (Literal × Tree)} {small : ∀ m ∈ members, sizeOf m.2 < n}
    {seen : List String} {a : α} {out : List String × α}
    (distinct : members.Pairwise fun m n => m.1.spelled ≠ n.1.spelled)
    (unseen : ∀ m ∈ members, ∀ name ∈ seen, m.1.spelled ≠ .ok name) :
    readMembers c (slots.map toField) members small seen a = .ok out ↔
      ∃ acts, List.Forall₂ (Acts slots c) members acts ∧ out = (noted slots seen acts, perform a acts) := by
  induction members generalizing seen a with
  | nil => simp [readMembers, noted, perform, eq_comm]
  | cons m rest ih =>
    obtain ⟨first, later⟩ := List.pairwise_cons.mp distinct
    have onward (act : String × (α → α)) (spelled : m.1.spelled = .ok act.1) :
        ∀ m' ∈ rest, ∀ name ∈ note slots seen act.1, m'.1.spelled ≠ .ok name := by
      intro m' inside name noticed
      rcases mem_note noticed with rfl | old
      · exact fun same => first m' inside (spelled.trans same.symm)
      · exact unseen m' (List.mem_cons_of_mem m inside) name old
    rw [readMembers_cons_iff]
    constructor
    · rintro ⟨act, acts, -, reads⟩
      obtain ⟨others, all, rfl⟩ := (ih later (onward act acts.1)).mp reads
      exact ⟨act :: others, .cons acts all, rfl⟩
    · rintro ⟨_, _ | ⟨acts, all⟩, rfl⟩
      refine ⟨_, acts, .inr fun seen => ?_, (ih later (onward _ acts.1)).mpr ⟨_, all, rfl⟩⟩
      exact unseen m List.mem_cons_self _ seen acts.1

theorem lacking?_eq_none {seen : List String} :
    lacking? (slots.map (toField (n := n))) seen = none ↔ ∀ s ∈ slots, s.required = true → s.name ∈ seen := by
  simp only [lacking?, Option.map_eq_none_iff, List.find?_eq_none, List.forall_mem_map, Bool.and_eq_true,
    Bool.not_eq_true', not_and, Bool.not_eq_false, List.contains_iff_mem]
  exact Iff.rfl

theorem readRecord_container {title : String} {start a : α} {t : Tree} {fields : List (Field (sizeOf t) α)}
    (reads : t.readRecord c title start fields = .ok a) :
    (∃ members flaw, t = .object members flaw) ∨ ∃ items flaw, t = .array items flaw := by
  cases t with
  | object members flaw => exact .inl ⟨members, flaw, rfl⟩
  | array items flaw => exact .inr ⟨items, flaw, rfl⟩
  | _ => simp [readRecord, wrong_ne_ok] at reads

theorem readRecord_object_iff (deep : c.Deep) {title : String} {start a : α} {members : List (Literal × Tree)}
    {flaw : Option Flaw} (small : ∀ m ∈ members, sizeOf m.2 < sizeOf (object members flaw)) :
    (object members flaw).readRecord c title start (slots.map toField) = .ok a ↔
      flaw = none ∧ ∃ seen, readMembers c (slots.map toField) members small [] start = .ok (seen, a) ∧
        ∀ s ∈ slots, s.required = true → s.name ∈ seen := by
  simp only [readRecord, deep.enter, bind_eq_ok_iff, failOn_eq_ok_iff, Except.ok.injEq]
  constructor
  · rintro ⟨_, rfl, ⟨seen, b⟩, reads, -, whole, rest⟩
    split at rest
    next => cases rest
    next given =>
      cases rest
      exact ⟨whole, seen, reads, lacking?_eq_none.mp given⟩
  · rintro ⟨rfl, seen, reads, given⟩
    refine ⟨c, rfl, (seen, a), reads, (), rfl, ?_⟩
    rw [lacking?_eq_none.mpr given]
    rfl

/-- Where no name repeats, a record is made of what the members do one by one. -/
theorem readRecord_distinct_iff (deep : c.Deep) {title : String} {start a : α} {members : List (Literal × Tree)}
    {flaw : Option Flaw} (distinct : members.Pairwise fun m m' => m.1.spelled ≠ m'.1.spelled) :
    (object members flaw).readRecord c title start (slots.map toField) = .ok a ↔
      flaw = none ∧ ∃ acts, List.Forall₂ (Acts slots c) members acts ∧
        (∀ s ∈ slots, s.required = true → s.name ∈ acts.map Prod.fst) ∧ a = perform start acts := by
  have unseen : ∀ m ∈ members, ∀ name ∈ [], m.1.spelled ≠ .ok name := fun _ _ _ inside => nomatch inside
  have full (acts : List (String × (α → α))) :
      (∀ s ∈ slots, s.required = true → s.name ∈ noted slots [] acts) ↔
        ∀ s ∈ slots, s.required = true → s.name ∈ acts.map Prod.fst :=
    forall₂_congr fun s slot => by rw [mem_noted slot, or_iff_left List.not_mem_nil]
  simp only [readRecord_object_iff deep fun _ => member_small, readMembers_eq_ok_iff distinct unseen]
  refine and_congr_right fun _ => ⟨?_, ?_⟩
  · rintro ⟨_, ⟨acts, all, ⟨⟩⟩, given⟩
    exact ⟨acts, all, (full acts).mp given, rfl⟩
  · rintro ⟨acts, all, given, rfl⟩
    exact ⟨_, ⟨acts, all, rfl⟩, (full acts).mpr given⟩

theorem readRecord_array_iff (deep : c.Deep) {title : String} {start a : α} {items : List Tree}
    {flaw : Option Flaw} (small : ∀ t ∈ items, sizeOf t < sizeOf (array items flaw)) :
    (array items flaw).readRecord c title start (slots.map toField) = .ok a ↔
      flaw = none ∧ readElements c title slots.length flaw 0 (slots.map toField) items small start =
        .ok ([], a) := by
  simp only [readRecord, deep.enter, bind_eq_ok_iff, Except.ok.injEq, List.length_map]
  constructor
  · rintro ⟨_, rfl, ⟨left, b⟩, reads, rest⟩
    cases left with
    | nil =>
      obtain ⟨_, sound, ⟨⟩⟩ := bind_eq_ok_iff.mp rest
      exact ⟨failOn_eq_ok_iff.mp sound, reads⟩
    | cons t left =>
      rw [List.isEmpty_cons, Bool.not_false, if_pos rfl] at rest
      split at rest <;> cases rest
  · rintro ⟨rfl, reads⟩
    exact ⟨c, rfl, _, reads, rfl⟩

/-- Items with the same meanings fill the slots in the same way. -/
theorem readElements_follows {m : Nat} {c' : Context} {title : String} {count index : Nat}
    {items items' : List Tree} {vs : List Value} {small : ∀ t ∈ items, sizeOf t < n}
    {small' : ∀ t ∈ items', sizeOf t < m} {a b : α} (deep : c.Deep) (deep' : c'.Deep)
    (follows : ∀ s ∈ slots, Follows n s.read) (means : List.Forall₂ Means items vs)
    (means' : List.Forall₂ Means items' vs)
    (reads : readElements c title count none index (slots.map toField) items small a = .ok ([], b)) :
    readElements c' title count none index (slots.map toField) items' small' a = .ok ([], b) := by
  induction slots generalizing items items' vs index a with
  | nil =>
    cases reads
    cases means
    cases means'
    rfl
  | cons s slots ih =>
    obtain ⟨first, later⟩ := List.forall_mem_cons.mp follows
    cases means with
    | nil =>
      cases means'
      rw [List.map_cons, readElements] at reads ⊢
      obtain ⟨_, _, reads⟩ := bind_eq_ok_iff.mp reads
      refine bind_eq_ok_iff.mpr ⟨(), rfl, ?_⟩
      cases optional : s.required with
      | true =>
        rw [toField, field, optional, if_pos rfl] at reads
        cases reads
      | false =>
        rw [toField, field, optional, if_neg nofun] at reads ⊢
        exact ih later .nil .nil reads
    | cons here others =>
      cases means' with
      | cons here' others' =>
        rw [List.map_cons, readElements] at reads ⊢
        obtain ⟨next, set, reads⟩ := bind_eq_ok_iff.mp reads
        obtain ⟨x, read, rfl⟩ := toField_read_eq_ok_iff.mp set
        have read' := first deep deep' (small _ List.mem_cons_self) here here' read
        refine bind_eq_ok_iff.mpr ⟨_, toField_read_eq_ok_iff.mpr ⟨x, read', rfl⟩, ?_⟩
        exact ih later others others' reads

theorem Slot.Acts.follow {c' : Context} {m m' : Literal × Tree} {e : String × Value} {act : String × (α → α)}
    (deep : c.Deep) (deep' : c'.Deep) (small : sizeOf m.2 < n) (follows : ∀ s ∈ slots, Follows n s.read)
    (names : Names m e) (names' : Names m' e) (acts : Acts slots c m act) : Acts slots c' m' act := by
  refine ⟨names'.spelled.trans (names.spelled.symm.trans acts.1), ?_⟩
  have does := acts.2
  cases found : named? slots act.1 with
  | none =>
    rw [found] at does
    exact ⟨names'.means.flaw?_eq_none, does.2⟩
  | some s =>
    rw [found] at does
    obtain ⟨x, read, set⟩ := does
    have slot := List.mem_of_find?_eq_some found
    exact ⟨x, follows s slot deep deep' small names.means names'.means read, set⟩

theorem Slot.Independent.commute (independent : Independent slots) {m m' : Literal × Tree}
    {act act' : String × (α → α)} (acts : Acts slots c m act) (acts' : Acts slots c m' act')
    (apart : act.1 ≠ act'.1) (a : α) : act.2 (act'.2 a) = act'.2 (act.2 a) := by
  have does := acts.2
  have does' := acts'.2
  cases found : named? slots act.1 with
  | none =>
    rw [found] at does
    rw [does.2, id, id]
  | some s =>
    cases found' : named? slots act'.1 with
    | none =>
      rw [found'] at does'
      rw [does'.2, id, id]
    | some r =>
      rw [found] at does
      rw [found'] at does'
      obtain ⟨x, -, set⟩ := does
      obtain ⟨y, -, set'⟩ := does'
      have name : s.name = act.1 := by simpa using List.find?_some found
      have name' : r.name = act'.1 := by simpa using List.find?_some found'
      rw [set, set']
      exact independent s (List.mem_of_find?_eq_some found) r (List.mem_of_find?_eq_some found')
        (by rwa [name, name']) x y a

/-- What the members of one object do comes to the same in any order. -/
theorem Slot.Independent.perform_eq_of_perm (independent : Independent slots) {members : List (Literal × Tree)}
    {acts acts' : List (String × (α → α))} (distinct : members.Pairwise fun m m' => m.1.spelled ≠ m'.1.spelled)
    (all : List.Forall₂ (Acts slots c) members acts) (perm : acts.Perm acts') (start : α) :
    perform start acts = perform start acts' := by
  have apart : Entries.Apart acts := (pairwise_spelled_iff (all.imp fun _ _ does => does.1)).mp distinct
  -- No name is repeated, so two acts with one name are the same act.
  refine perm.foldl_eq' (fun x first y second a => ?_) start
  obtain ⟨m, -, does⟩ := exists_left_of_mem all first
  obtain ⟨m', -, does'⟩ := exists_left_of_mem all second
  by_cases same : y.1 = x.1
  · rw [apart.eq_of_mem second first same]
  · exact independent.commute does' does same a

theorem Slot.independent_of_pairwise
    (commute : slots.Pairwise fun s r => ∀ x y a, s.set x (r.set y a) = r.set y (s.set x a)) :
    Independent slots := by
  intro s slot r other apart
  induction commute with
  | nil => cases slot
  | cons first _ ih =>
    rcases List.mem_cons.mp slot with rfl | later <;> rcases List.mem_cons.mp other with rfl | after
    · exact absurd rfl apart
    · exact first r after
    · exact fun x y a => (first s later y x a).symm
    · exact ih later after

/-- A record of independent slots is read alike from all trees with one meaning. -/
theorem follows_readRecord (title : String) (start : α) (independent : Independent slots)
    (follows : ∀ s ∈ slots, Follows n s.read) :
    Follows (n + 1) fun c t => t.readRecord c title start (slots.map toField) := by
  intro c c' t t' v a deep deep' small means means' reads
  rcases readRecord_container reads with ⟨members, flaw, rfl⟩ | ⟨items, flaw, rfl⟩
  · obtain ⟨-, entries, -, -, rfl⟩ := means_object_iff.mp means
    obtain ⟨others, entries', rfl, -, -, -⟩ := means'.exists_object
    obtain ⟨rfl, acts, all, given, rfl⟩ := (readRecord_distinct_iff deep means.distinct.1).mp reads
    -- The other object has the same acts, in the order of its own members.
    obtain ⟨acts', perm, all'⟩ := means.transfer means' all (q := Acts slots c')
      fun m inside m' e act names names' does => by
        have smaller := @member_small _ none _ inside
        exact Acts.follow deep deep' (by omega) follows names names' does
    refine (readRecord_distinct_iff deep' means'.distinct.1).mpr ⟨rfl, acts', all', ?_, ?_⟩
    · exact fun s slot needed => (perm.map Prod.fst).mem_iff.mpr (given s slot needed)
    · exact (independent.perform_eq_of_perm means'.distinct.1 all' perm start).symm
  · obtain ⟨-, vs, each, rfl⟩ := means_array_iff.mp means
    obtain ⟨items', rfl, each'⟩ := means'.exists_array
    have inside : ∀ t ∈ items, sizeOf t < sizeOf (array items flaw) := fun _ => item_small
    obtain ⟨rfl, elements⟩ := (readRecord_array_iff deep inside).mp reads
    refine (readRecord_array_iff deep' fun _ => item_small).mpr ⟨rfl, ?_⟩
    exact readElements_follows deep deep' (fun s slot => (follows s slot).mono (by omega)) each each' elements

end Records

section Yielding

open Slot

variable {α : Type} {n : Nat} {read : Context → Tree → Except Problem α} {good : α → Prop}

/-- What the reader finds in a sound tree below a size is good. -/
def Yields (n : Nat) (read : Context → Tree → Except Problem α) (good : α → Prop) : Prop :=
  ∀ ⦃c : Context⦄ ⦃t : Tree⦄ ⦃a : α⦄, c.Deep → sizeOf t < n → t.Sound → read c t = .ok a → good a

theorem Yields.mono {m : Nat} (yields : Yields n read good) (less : m ≤ n) : Yields m read good :=
  fun _ _ _ deep small => yields deep (Nat.lt_of_lt_of_le small less)

theorem yields_zero : Yields 0 read good := fun _ _ _ _ small => absurd small (Nat.not_lt_zero _)

theorem Yields.readNullable (yields : Yields n read good) :
    Yields n (readNullable read) fun found => ∀ a ∈ found, good a := by
  intro c t found deep small sound reads
  rcases readNullable_eq_ok_iff.mp reads with ⟨-, rfl⟩ | ⟨-, a, first, rfl⟩
  · exact nofun
  · rintro _ ⟨⟩
    exact yields deep small sound first

theorem Yields.readList (yields : Yields n read good) :
    Yields (n + 1) (fun c t => t.readList c (anySize read)) fun as => ∀ a ∈ as, good a := by
  intro c t as deep small sound reads a inside
  obtain ⟨items, rfl, all⟩ := (readList_eq_ok_iff deep).mp reads
  obtain ⟨t, item, first⟩ := exists_left_of_mem all inside
  have smaller := @item_small _ none _ item
  exact yields deep (by omega) (allSound_iff.mp sound t item) first

theorem Yields.readMap (yields : Yields n read good) :
    Yields (n + 1) (fun c t => t.readMap c Entries.put .ok (anySize read))
      fun entries => Entries.Ordered entries ∧ ∀ e ∈ entries, good e.2 := by
  intro c t entries deep small sound reads
  obtain ⟨members, found, rfl, all, rfl⟩ := (readMap_eq_ok_iff deep).mp reads
  refine ⟨Entries.Ordered.fill .nil found, fun e inside => ?_⟩
  obtain ⟨m, member, -, first⟩ := exists_left_of_mem all (Entries.mem_fill_nil inside)
  have smaller := @member_small _ none _ member
  exact yields deep (by omega) (membersSound_iff.mp sound m member).2 first

/-- What is set from a sound tree below a size leaves the record good. -/
def Slot.Keeps (n : Nat) (good : α → Prop) (s : Slot α) : Prop :=
  ∀ ⦃c : Context⦄ ⦃t : Tree⦄ ⦃x : s.β⦄ ⦃a : α⦄, c.Deep → sizeOf t < n → t.Sound → s.read c t = .ok x → good a →
    good (s.set x a)

variable {slots : List (Slot α)} {c : Context}

theorem readMembers_keeps (keeps : ∀ s ∈ slots, s.Keeps n good) (deep : c.Deep)
    {members : List (Literal × Tree)} {small : ∀ m ∈ members, sizeOf m.2 < n} {seen : List String} {a : α}
    {out : List String × α} (sound : ∀ m ∈ members, m.2.Sound)
    (reads : readMembers c (slots.map toField) members small seen a = .ok out) (start : good a) : good out.2 := by
  induction members generalizing seen a with
  | nil =>
    cases reads
    exact start
  | cons m rest ih =>
    obtain ⟨act, ⟨-, does⟩, -, reads⟩ := readMembers_cons_iff.mp reads
    refine ih (fun m' inside => sound m' (List.mem_cons_of_mem m inside)) reads ?_
    cases found : named? slots act.1 with
    | none =>
      rw [found] at does
      rw [does.2]
      exact start
    | some s =>
      rw [found] at does
      obtain ⟨x, read, set⟩ := does
      rw [set]
      exact keeps s (List.mem_of_find?_eq_some found) deep (small m List.mem_cons_self)
        (sound m List.mem_cons_self) read start

theorem readElements_keeps (keeps : ∀ s ∈ slots, s.Keeps n good) (deep : c.Deep) {title : String}
    {count index : Nat} {flaw : Option Flaw} {items : List Tree} {small : ∀ t ∈ items, sizeOf t < n} {a : α}
    {out : List Tree × α} (sound : ∀ t ∈ items, t.Sound)
    (reads : readElements c title count flaw index (slots.map toField) items small a = .ok out) (start : good a) :
    good out.2 := by
  induction slots generalizing items index a with
  | nil =>
    cases reads
    exact start
  | cons s slots ih =>
    obtain ⟨first, later⟩ := List.forall_mem_cons.mp keeps
    cases items with
    | nil =>
      rw [List.map_cons, readElements] at reads
      obtain ⟨_, -, reads⟩ := bind_eq_ok_iff.mp reads
      split at reads
      next => cases reads
      next => exact ih later sound reads start
    | cons t items =>
      rw [List.map_cons, readElements] at reads
      obtain ⟨next, set, reads⟩ := bind_eq_ok_iff.mp reads
      obtain ⟨x, read, rfl⟩ := toField_read_eq_ok_iff.mp set
      obtain ⟨here, others⟩ := List.forall_mem_cons.mp sound
      exact ih later others reads (first deep (small t List.mem_cons_self) here read start)

theorem yields_readRecord (title : String) {start : α} (keeps : ∀ s ∈ slots, s.Keeps n good) (fine : good start) :
    Yields (n + 1) (fun c t => t.readRecord c title start (slots.map toField)) good := by
  intro c t a deep small sound reads
  -- The parts of a container are smaller than it, so the bound on their size may come down to its own.
  have keeps : ∀ s ∈ slots, s.Keeps (sizeOf t) good := fun s slot c t x a deep smaller =>
    keeps s slot deep (by omega)
  rcases readRecord_container reads with ⟨members, flaw, rfl⟩ | ⟨items, flaw, rfl⟩
  · obtain ⟨-, seen, reads, -⟩ := (readRecord_object_iff deep fun _ => member_small).mp reads
    exact readMembers_keeps keeps deep (fun m inside => (membersSound_iff.mp sound m inside).2) reads fine
  · obtain ⟨-, reads⟩ := (readRecord_array_iff deep fun _ => item_small).mp reads
    exact readElements_keeps keeps deep (allSound_iff.mp sound) reads fine

end Yielding

section Written

open Slot

variable {α β : Type} {read : Context → Tree → Except Problem β} {slots : List (Slot α)} {c : Context}

/-- Entries in order are read back from the object of what is written of them. -/
theorem readMap_object (deep : c.Deep) (write : β → Value) {entries : Entries β}
    (ordered : Entries.Ordered entries) (each : ∀ e ∈ entries, read c (write e.2).tree = .ok e.2) :
    (Value.object (entries.map fun e => (e.1, write e.2))).tree.readMap c Entries.put .ok (anySize read) =
      .ok entries := by
  refine (readMap_eq_ok_iff deep).mpr ⟨_, entries, rfl, ?_, ordered.fill_eq.symm⟩
  rw [Value.treeMembers_eq, List.map_map, List.forall₂_map_left_iff, List.forall₂_same]
  exact fun e inside => ⟨rfl, each e inside⟩

/-- Members that are read into a record one after the other. -/
inductive Adds (slots : List (Slot α)) (c : Context) : List (String × Value) → α → α → Prop
  | nil {a : α} : Adds slots c [] a a
  | cons {name : String} {v : Value} {rest : List (String × Value)} {a b : α} {s : Slot α} {x : s.β}
      (slot : named? slots name = some s) (read : s.read c v.tree = .ok x)
      (others : Adds slots c rest (s.set x a) b) : Adds slots c ((name, v) :: rest) a b

theorem Adds.append {members others : List (String × Value)} {a b d : α} (first : Adds slots c members a b)
    (second : Adds slots c others b d) : Adds slots c (members ++ others) a d := by
  induction first with
  | nil => exact second
  | cons slot read _ ih => exact .cons slot read (ih second)

theorem Adds.acts {members : List (String × Value)} {a b : α} (adds : Adds slots c members a b) :
    ∃ acts, List.Forall₂ (Acts slots c) (Value.treeMembers members) acts ∧
      acts.map Prod.fst = members.map Prod.fst ∧ b = perform a acts := by
  induction adds with
  | nil => exact ⟨[], .nil, rfl, rfl⟩
  | @cons name v rest a b s x slot read _ ih =>
    obtain ⟨acts, all, names, rfl⟩ := ih
    have here : Acts slots c (⟨.ok name, none⟩, v.tree) (name, s.set x) := by
      refine ⟨rfl, ?_⟩
      rw [slot]
      exact ⟨x, read, rfl⟩
    exact ⟨(name, s.set x) :: acts, .cons here all, congrArg _ names, rfl⟩

theorem pairwise_treeMembers {members : List (String × Value)} (apart : Entries.Apart members) :
    (Value.treeMembers members).Pairwise fun m m' => m.1.spelled ≠ m'.1.spelled := by
  rw [Value.treeMembers_eq, List.pairwise_map]
  exact apart.imp fun unequal same => unequal (Except.ok.inj same)

/-- A record is read from an object of members with different names, none of the required ones missing. -/
theorem readRecord_object (deep : c.Deep) (title : String) {members : List (String × Value)} {start a : α}
    (apart : Entries.Apart members) (adds : Adds slots c members start a)
    (given : ∀ s ∈ slots, s.required = true → s.name ∈ members.map Prod.fst) :
    (Value.object members).tree.readRecord c title start (slots.map toField) = .ok a := by
  obtain ⟨acts, all, names, rfl⟩ := adds.acts
  exact (readRecord_distinct_iff deep (pairwise_treeMembers apart)).mpr ⟨rfl, acts, all, names ▸ given, rfl⟩

end Written

end BlockPlay.Json.Tree

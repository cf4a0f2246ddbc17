import BlockPlay.Proofs.Entries
import BlockPlay.Proofs.Json.Reading
import BlockPlay.Proofs.Json.Sound

/-!
What a tree means. A tree without flaws in which no object repeats a name means one value, whichever way the
members of its objects stand and however deep a reader may go.
-/
namespace BlockPlay.Json

section Stages

variable {ε α β : Type} {x : Except ε α} {b : β}

theorem bind_eq_ok_iff {f : α → Except ε β} : (x >>= f) = .ok b ↔ ∃ a, x = .ok a ∧ f a = .ok b := by
  cases x <;> simp [bind, Except.bind]

theorem bind_eq_error_iff {f : α → Except ε β} {e : ε} :
    (x >>= f) = .error e ↔ x = .error e ∨ ∃ a, x = .ok a ∧ f a = .error e := by
  cases x <;> simp [bind, Except.bind]

theorem map_eq_ok_iff {f : α → β} : x.map f = .ok b ↔ ∃ a, x = .ok a ∧ f a = b := by
  cases x <;> simp [Except.map]

end Stages

section Pairs

variable {α β : Type*} {r q : α → β → Prop} {as : List α} {bs : List β}

theorem forall₂_of_mem (all : List.Forall₂ r as bs) (step : ∀ a ∈ as, ∀ b ∈ bs, r a b → q a b) :
    List.Forall₂ q as bs := by
  induction all with
  | nil => exact .nil
  | cons first _ ih =>
    refine .cons (step _ List.mem_cons_self _ List.mem_cons_self first) (ih ?_)
    exact fun a left b right => step a (List.mem_cons_of_mem _ left) b (List.mem_cons_of_mem _ right)

theorem exists_left_of_mem (all : List.Forall₂ r as bs) {b : β} (inside : b ∈ bs) : ∃ a ∈ as, r a b := by
  induction all with
  | nil => cases inside
  | cons first _ ih =>
    rcases List.mem_cons.mp inside with rfl | later
    · exact ⟨_, List.mem_cons_self, first⟩
    · obtain ⟨a, member, holds⟩ := ih later
      exact ⟨a, List.mem_cons_of_mem _ member, holds⟩

theorem exists_right_of_mem (all : List.Forall₂ r as bs) {a : α} (inside : a ∈ as) : ∃ b ∈ bs, r a b :=
  exists_left_of_mem (r := flip r) all.flip inside

theorem forall₂_trans {γ : Type*} {p : β → γ → Prop} {p' : α → γ → Prop} {cs : List γ}
    (first : List.Forall₂ r as bs) (second : List.Forall₂ p bs cs) (step : ∀ a b c, r a b → p b c → p' a c) :
    List.Forall₂ p' as cs := by
  induction first generalizing cs with
  | nil =>
    cases second
    exact .nil
  | cons left _ ih =>
    cases second with
    | cons right others => exact .cons (step _ _ _ left right) (ih others)

end Pairs

namespace Context

/-- Containers may be opened to any depth. -/
def Deep (c : Context) : Prop := c.room = none

theorem Deep.enter {c : Context} (deep : c.Deep) : c.enter = .ok c := by
  obtain ⟨source, room⟩ := c
  cases deep
  rfl

theorem Deep.allows {c : Context} (deep : c.Deep) (depth : Nat) : c.Allows depth := by
  intro room given
  cases deep.symm.trans given

/-- Where one reader may go, the other may go too. -/
def Within (c wider : Context) : Prop :=
  ∀ more, wider.room = some more → ∃ room, c.room = some room ∧ room ≤ more

theorem Deep.within {wider : Context} (deep : wider.Deep) (c : Context) : c.Within wider := by
  intro more given
  cases deep.symm.trans given

theorem Within.enter {c wider inner : Context} (within : c.Within wider) (entered : c.enter = .ok inner) :
    ∃ other, wider.enter = .ok other ∧ inner.Within other := by
  obtain ⟨source, room⟩ := wider
  rcases room with _ | more
  · exact ⟨_, rfl, nofun⟩
  · obtain ⟨less, given, fewer⟩ := within more rfl
    rw [Context.enter, given] at entered
    cases less with
    | zero => cases entered
    | succ less =>
      cases entered
      cases more with
      | zero => cases fewer
      | succ more =>
        refine ⟨_, rfl, ?_⟩
        rintro _ ⟨⟩
        exact ⟨less, rfl, Nat.le_of_succ_le_succ fewer⟩

end Context

/-- The reader of the text of a string finds it in a sound string. -/
theorem Literal.read_eq_ok_iff {s : Literal} {text : String} : s.read = .ok text ↔ s.spelled = .ok text := by
  rw [Literal.read]
  split
  next spelled => rw [spelled, Except.ok.injEq, Except.ok.injEq]
  next spelled => simp [spelled]

namespace Tree

section Values

variable {c : Context}

theorem readValues_eq_ok_iff {items : List Tree} {vs : List Value} :
    readValues c items = .ok vs ↔ List.Forall₂ (fun t v => t.readValue c = .ok v) items vs := by
  induction items generalizing vs with
  | nil => cases vs <;> simp [readValues]
  | cons t rest ih =>
    simp only [readValues, bind_eq_ok_iff, ih, pure, Except.pure, Except.ok.injEq]
    constructor
    · rintro ⟨v, first, ws, others, rfl⟩
      exact .cons first others
    · rintro (_ | ⟨first, others⟩)
      exact ⟨_, first, _, others, rfl⟩

/-- The name and the value of a member. -/
def IsEntry (c : Context) (m : Literal × Tree) (e : String × Value) : Prop :=
  m.1.spelled = .ok e.1 ∧ m.2.readValue c = .ok e.2

theorem readNamed_eq_ok_iff {found out : Entries Value} {members : List (Literal × Tree)} :
    readNamed c found members = .ok out ↔
      ∃ entries, List.Forall₂ (IsEntry c) members entries ∧ out = Entries.fill found entries := by
  induction members generalizing found with
  | nil => simp [readNamed, Entries.fill, eq_comm]
  | cons m rest ih =>
    simp only [readNamed, bind_eq_ok_iff, ih, Literal.read_eq_ok_iff]
    constructor
    · rintro ⟨name, spelled, v, read, entries, others, filled⟩
      exact ⟨(name, v) :: entries, .cons ⟨spelled, read⟩ others, filled⟩
    · rintro ⟨_, _ | ⟨⟨spelled, read⟩, others⟩, filled⟩
      exact ⟨_, spelled, _, read, _, others, filled⟩

theorem failOn_eq_ok_iff {flaw : Option Flaw} {u : Unit} : failOn flaw = .ok u ↔ flaw = none := by
  cases flaw <;> simp [failOn]

theorem readValue_array_iff {items : List Tree} {flaw : Option Flaw} {v : Value} :
    (array items flaw).readValue c = .ok v ↔ flaw = none ∧ ∃ inner, c.enter = .ok inner ∧
      ∃ vs, List.Forall₂ (fun t v => t.readValue inner = .ok v) items vs ∧ v = .array vs := by
  simp only [readValue, bind_eq_ok_iff, readValues_eq_ok_iff, failOn_eq_ok_iff, pure, Except.pure,
    Except.ok.injEq]
  constructor
  · rintro ⟨inner, entered, vs, all, -, sound, rfl⟩
    exact ⟨sound, inner, entered, vs, all, rfl⟩
  · rintro ⟨sound, inner, entered, vs, all, rfl⟩
    exact ⟨inner, entered, vs, all, (), sound, rfl⟩

theorem readValue_object_iff {members : List (Literal × Tree)} {flaw : Option Flaw} {v : Value} :
    (object members flaw).readValue c = .ok v ↔ flaw = none ∧ ∃ inner, c.enter = .ok inner ∧
      ∃ entries, List.Forall₂ (IsEntry inner) members entries ∧ v = .object (Entries.fill [] entries) := by
  simp only [readValue, bind_eq_ok_iff, readNamed_eq_ok_iff, failOn_eq_ok_iff, pure, Except.pure,
    Except.ok.injEq]
  constructor
  · rintro ⟨inner, entered, _, ⟨entries, all, rfl⟩, -, sound, rfl⟩
    exact ⟨sound, inner, entered, entries, all, rfl⟩
  · rintro ⟨sound, inner, entered, entries, all, rfl⟩
    exact ⟨inner, entered, _, ⟨entries, all, rfl⟩, (), sound, rfl⟩

theorem wrong_ne_ok {α : Type} {t : Tree} {wanted : String} {a : α} : t.wrong wanted ≠ .ok a := by
  rw [wrong]
  split <;> exact nofun

/-- The reader of strings takes the trees that are read as one. -/
theorem readString_eq_ok_iff {t : Tree} {text : String} :
    t.readString = .ok text ↔ t.readValue c = .ok (.string text) := by
  cases t with
  | string s => simp [readString, readValue, map_eq_ok_iff]
  | array items flaw => simp [readString, wrong_ne_ok, readValue_array_iff]
  | object members flaw => simp [readString, wrong_ne_ok, readValue_object_iff]
  | number n => cases n <;> simp [readString, wrong_ne_ok, readValue]
  | _ => simp [readString, wrong_ne_ok, readValue]

theorem isNull_iff {t : Tree} : t.isNull = true ↔ t.readValue c = .ok .null := by
  cases t with
  | string s => simp [isNull, readValue, map_eq_ok_iff]
  | array items flaw => simp [isNull, readValue_array_iff]
  | object members flaw => simp [isNull, readValue_object_iff]
  | number n => cases n <;> simp [isNull, readValue]
  | _ => simp [isNull, readValue]

end Values

/-- What is read where containers may be opened to some depth is read where they may be opened deeper. -/
theorem readValue_within {c wider : Context} (within : c.Within wider) {t : Tree} {v : Value}
    (read : t.readValue c = .ok v) : t.readValue wider = .ok v := by
  match t with
  | .null | .bool _ | .string _ | .missing | .broken _ | .cutNumber => simpa only [readValue] using read
  | .number n => cases n <;> simpa only [readValue] using read
  | .array items flaw =>
    obtain ⟨sound, inner, entered, vs, all, rfl⟩ := readValue_array_iff.mp read
    obtain ⟨other, opened, further⟩ := within.enter entered
    have parts := forall₂_of_mem all fun t inside v _ read =>
      have := @item_small _ flaw _ inside
      readValue_within further read
    exact readValue_array_iff.mpr ⟨sound, other, opened, vs, parts, rfl⟩
  | .object members flaw =>
    obtain ⟨sound, inner, entered, entries, all, rfl⟩ := readValue_object_iff.mp read
    obtain ⟨other, opened, further⟩ := within.enter entered
    have parts : List.Forall₂ (IsEntry other) members entries := forall₂_of_mem all fun m inside e _ entry =>
      have := @member_small _ flaw _ inside
      ⟨entry.1, readValue_within further entry.2⟩
    exact readValue_object_iff.mpr ⟨sound, other, opened, entries, parts, rfl⟩
termination_by sizeOf t
decreasing_by all_goals assumption

end Tree

namespace Value

theorem allSound_iff {items : List Value} : AllSound items ↔ ∀ v ∈ items, v.Sound := by
  induction items with
  | nil => simp [AllSound]
  | cons v rest ih => simp [AllSound, ih]

theorem membersSound_iff {members : List (String × Value)} : MembersSound members ↔ ∀ m ∈ members, m.2.Sound := by
  induction members with
  | nil => simp [MembersSound]
  | cons m rest ih => simp [MembersSound, ih]

theorem treeMembers_eq (members : List (String × Value)) :
    treeMembers members = members.map fun m => (⟨.ok m.1, none⟩, m.2.tree) := by
  induction members with
  | nil => rfl
  | cons m rest ih => rw [treeMembers, ih, List.map_cons]

theorem trees_eq (items : List Value) : trees items = items.map tree := by
  induction items with
  | nil => rfl
  | cons v rest ih => rw [trees, ih, List.map_cons]

end Value

namespace Tree

mutual

/-- No object repeats a name. -/
def Distinct : Tree → Prop
  | .array items _ => AllDistinct items
  | .object members _ => members.Pairwise (fun m n => m.1.spelled ≠ n.1.spelled) ∧ MembersDistinct members
  | _ => True

def AllDistinct : List Tree → Prop
  | [] => True
  | t :: rest => t.Distinct ∧ AllDistinct rest

def MembersDistinct : List (Literal × Tree) → Prop
  | [] => True
  | (_, t) :: rest => t.Distinct ∧ MembersDistinct rest

end

theorem allDistinct_iff {items : List Tree} : AllDistinct items ↔ ∀ t ∈ items, t.Distinct := by
  induction items with
  | nil => simp [AllDistinct]
  | cons t rest ih => simp [AllDistinct, ih]

theorem membersDistinct_iff {members : List (Literal × Tree)} :
    MembersDistinct members ↔ ∀ m ∈ members, m.2.Distinct := by
  induction members with
  | nil => simp [MembersDistinct]
  | cons m rest ih => simp [MembersDistinct, ih]

theorem flawItems?_eq_none {items : List Tree} : flawItems? items = none ↔ ∀ t ∈ items, t.flaw? = none := by
  induction items with
  | nil => simp [flawItems?]
  | cons t rest ih => simp [flawItems?, ih]

theorem flawMembers?_eq_none {members : List (Literal × Tree)} :
    flawMembers? members = none ↔ ∀ m ∈ members, m.1.flaw = none ∧ m.2.flaw? = none := by
  induction members with
  | nil => simp [flawMembers?]
  | cons m rest ih => simp [flawMembers?, ih, and_assoc]

/-- A sound tree in which no object repeats a name comes to a value. -/
structure Means (t : Tree) (v : Value) : Prop where
  read : t.readValue .value = .ok v
  sound : t.Sound
  distinct : t.Distinct

theorem Means.of_read {c : Context} {t : Tree} {v : Value} (read : t.readValue c = .ok v) (sound : t.Sound)
    (distinct : t.Distinct) : t.Means v :=
  ⟨readValue_within (Context.Deep.within (rfl : Context.value.Deep) c) read, sound, distinct⟩

/-- A member without a flaw has the name of an entry and means its value. -/
structure Names (m : Literal × Tree) (e : String × Value) : Prop where
  spelled : m.1.spelled = .ok e.1
  whole : m.1.flaw = none
  means : m.2.Means e.2

/-- Members that are named like entries repeat no name if the entries do not. -/
theorem pairwise_spelled_iff {α : Type} {members : List (Literal × Tree)} {entries : List (String × α)}
    (named : List.Forall₂ (fun m e => m.1.spelled = .ok e.1) members entries) :
    members.Pairwise (fun m n => m.1.spelled ≠ n.1.spelled) ↔ Entries.Apart entries := by
  induction named with
  | nil => exact iff_of_true .nil .nil
  | @cons m e members entries first others ih =>
    rw [Entries.Apart, List.pairwise_cons, List.pairwise_cons, ih]
    refine and_congr_left fun _ => ⟨fun apart f inside same => ?_, fun apart n inside same => ?_⟩
    · obtain ⟨n, member, spelled⟩ := exists_left_of_mem others inside
      exact apart n member (by rw [first, spelled, same])
    · obtain ⟨f, entry, spelled⟩ := exists_right_of_mem others inside
      rw [first, spelled] at same
      exact apart f entry (Except.ok.inj same)

section Meaning

variable {t : Tree} {v : Value} {items : List Tree} {members : List (Literal × Tree)} {flaw : Option Flaw}

theorem means_array_iff : (array items flaw).Means v ↔
    flaw = none ∧ ∃ vs, List.Forall₂ Means items vs ∧ v = .array vs := by
  constructor
  · intro means
    obtain ⟨whole, inner, ⟨⟩, vs, all, same⟩ := readValue_array_iff.mp means.read
    refine ⟨whole, vs, forall₂_of_mem all fun t inside v _ read => ?_, same⟩
    exact ⟨read, allSound_iff.mp means.sound t inside, allDistinct_iff.mp means.distinct t inside⟩
  · rintro ⟨whole, vs, all, same⟩
    have each : ∀ t ∈ items, ∃ v ∈ vs, t.Means v := fun t inside => exists_right_of_mem all inside
    refine ⟨readValue_array_iff.mpr ⟨whole, _, rfl, vs, all.imp fun _ _ means => means.read, same⟩, ?_, ?_⟩
    · refine allSound_iff.mpr fun t inside => ?_
      obtain ⟨v, -, means⟩ := each t inside
      exact means.sound
    · refine allDistinct_iff.mpr fun t inside => ?_
      obtain ⟨v, -, means⟩ := each t inside
      exact means.distinct

theorem means_object_iff : (object members flaw).Means v ↔
    flaw = none ∧ ∃ entries, List.Forall₂ Names members entries ∧ Entries.Apart entries ∧
      v = .object (Entries.fill [] entries) := by
  constructor
  · intro means
    obtain ⟨whole, inner, ⟨⟩, entries, all, same⟩ := readValue_object_iff.mp means.read
    have named := all.imp fun _ _ entry => entry.1
    refine ⟨whole, entries, forall₂_of_mem all fun m inside e _ entry => ?_,
      (pairwise_spelled_iff named).mp means.distinct.1, same⟩
    obtain ⟨key, sound⟩ := membersSound_iff.mp means.sound m inside
    exact ⟨entry.1, key _ entry.1, entry.2, sound, membersDistinct_iff.mp means.distinct.2 m inside⟩
  · rintro ⟨whole, entries, all, apart, same⟩
    have named := all.imp fun _ _ names => names.spelled
    have each : ∀ m ∈ members, ∃ e ∈ entries, Names m e := fun m inside => exists_right_of_mem all inside
    refine ⟨readValue_object_iff.mpr ⟨whole, _, rfl, entries,
      all.imp fun _ _ names => ⟨names.spelled, names.means.read⟩, same⟩, ?_,
      (pairwise_spelled_iff named).mpr apart, ?_⟩
    · refine membersSound_iff.mpr fun m inside => ?_
      obtain ⟨e, -, names⟩ := each m inside
      exact ⟨fun _ _ => names.whole, names.means.sound⟩
    · refine membersDistinct_iff.mpr fun m inside => ?_
      obtain ⟨e, -, names⟩ := each m inside
      exact names.means.distinct

theorem Means.exists_array {vs : List Value} (means : t.Means (.array vs)) :
    ∃ items, t = .array items none ∧ List.Forall₂ Means items vs := by
  have read := means.read
  match t with
  | .array items flaw =>
    obtain ⟨rfl, _, all, ⟨⟩⟩ := means_array_iff.mp means
    exact ⟨items, rfl, all⟩
  | .object members flaw => simp [readValue_object_iff] at read
  | .string s => simp [readValue, map_eq_ok_iff] at read
  | .number none | .number (some _) | .null | .bool _ | .missing | .broken _ | .cutNumber => cases read

theorem Means.exists_object {found : Entries Value} (means : t.Means (.object found)) :
    ∃ members entries, t = .object members none ∧ List.Forall₂ Names members entries ∧
      Entries.Apart entries ∧ found = Entries.fill [] entries := by
  have read := means.read
  match t with
  | .object members flaw =>
    obtain ⟨rfl, entries, all, apart, ⟨⟩⟩ := means_object_iff.mp means
    exact ⟨members, entries, rfl, all, apart, rfl⟩
  | .array items flaw => simp [readValue_array_iff] at read
  | .string s => simp [readValue, map_eq_ok_iff] at read
  | .number none | .number (some _) | .null | .bool _ | .missing | .broken _ | .cutNumber => cases read

/-- What the members of an object come to, one by one, the members of each object with the same meaning come to,
in some order. -/
theorem Means.transfer {α : Type} {r q : Literal × Tree → α → Prop} {as : List α}
    {others : List (Literal × Tree)} {end' : Option Flaw} (means : (object members flaw).Means v)
    (same : (object others end').Means v) (all : List.Forall₂ r members as)
    (step : ∀ m ∈ members, ∀ m' e a, Names m e → Names m' e → r m a → q m' a) :
    ∃ bs, bs.Perm as ∧ List.Forall₂ q others bs := by
  obtain ⟨-, entries, named, apart, rfl⟩ := means_object_iff.mp means
  obtain ⟨-, entries', named', apart', filled⟩ := means_object_iff.mp same
  have perm : entries'.Perm entries := by
    have left := Entries.fill_nil_perm apart
    rw [Value.object.inj filled] at left
    exact (Entries.fill_nil_perm apart').symm.trans left
  have inside := forall₂_of_mem all fun m member a _ holds => And.intro member holds
  have back : List.Forall₂ (flip Names) entries members := .flip named
  have between : List.Forall₂ (fun e a => ∀ m', Names m' e → q m' a) entries as :=
    forall₂_trans back inside fun e m a names holds m' names' => step m holds.1 m' e a names names' holds.2
  obtain ⟨bs, each, rearranged⟩ := List.perm_comp_forall₂ perm between
  exact ⟨bs, rearranged, forall₂_trans named' each fun m' e b names holds => holds m' names⟩

/-- Who passes over a tree with a meaning finds no flaw. -/
theorem Means.flaw?_eq_none {t : Tree} {v : Value} (means : t.Means v) : t.flaw? = none := by
  match t with
  | .null | .bool _ | .number _ => rfl
  | .missing | .broken _ | .cutNumber => cases means.read
  | .string s =>
    have read := means.read
    rw [readValue, map_eq_ok_iff] at read
    obtain ⟨text, spelled, -⟩ := read
    exact means.sound text (Literal.read_eq_ok_iff.mp spelled)
  | .array items flaw =>
    obtain ⟨whole, vs, all, -⟩ := means_array_iff.mp means
    rw [flaw?, whole, Option.or_none, flawItems?_eq_none]
    intro t inside
    obtain ⟨v, -, part⟩ := exists_right_of_mem all inside
    have smaller := @item_small _ flaw _ inside
    exact part.flaw?_eq_none
  | .object members flaw =>
    obtain ⟨whole, entries, all, -⟩ := means_object_iff.mp means
    rw [flaw?, whole, Option.or_none, flawMembers?_eq_none]
    intro m inside
    obtain ⟨e, -, names⟩ := exists_right_of_mem all inside
    have smaller := @member_small _ flaw _ inside
    exact ⟨names.whole, names.means.flaw?_eq_none⟩
termination_by sizeOf t
decreasing_by all_goals assumption

theorem Means.reads {c : Context} (means : t.Means v) (deep : c.Deep) : t.readValue c = .ok v :=
  readValue_within (Context.Deep.within deep .value) means.read

/-- Entries in order are read from the object that is made of them. -/
theorem means_tree_object {entries : Entries Value} (ordered : Entries.Ordered entries)
    (each : ∀ e ∈ entries, e.2.tree.Means e.2) : (Value.object entries).tree.Means (.object entries) := by
  rw [Value.tree, Value.treeMembers_eq]
  refine means_object_iff.mpr ⟨rfl, entries, ?_, ordered.apart, by rw [ordered.fill_eq]⟩
  rw [List.forall₂_map_left_iff, List.forall₂_same]
  exact fun e inside => ⟨rfl, rfl, each e inside⟩

/-- What was read once means itself, even if an object repeated a name where it was read. -/
theorem means_tree_of_read {c : Context} {t : Tree} {v : Value} (read : t.readValue c = .ok v) (sound : t.Sound) :
    v.tree.Means v := by
  match t with
  | .null | .bool _ =>
    cases read
    exact ⟨rfl, trivial, trivial⟩
  | .number (some _) =>
    cases read
    exact ⟨rfl, sound, trivial⟩
  | .number none | .missing | .broken _ | .cutNumber => cases read
  | .string s =>
    rw [readValue, map_eq_ok_iff] at read
    obtain ⟨text, -, rfl⟩ := read
    exact ⟨rfl, fun _ _ => rfl, trivial⟩
  | .array items flaw =>
    obtain ⟨-, inner, -, vs, all, rfl⟩ := readValue_array_iff.mp read
    rw [Value.tree, Value.trees_eq]
    refine means_array_iff.mpr ⟨rfl, vs, ?_, rfl⟩
    rw [List.forall₂_map_left_iff, List.forall₂_same]
    intro v inside
    obtain ⟨t, item, read⟩ := exists_left_of_mem all inside
    have smaller := @item_small _ flaw _ item
    exact means_tree_of_read read (allSound_iff.mp sound t item)
  | .object members flaw =>
    obtain ⟨-, inner, -, entries, all, rfl⟩ := readValue_object_iff.mp read
    refine means_tree_object (Entries.Ordered.fill .nil entries) fun e inside => ?_
    obtain ⟨m, member, entry⟩ := exists_left_of_mem all (Entries.mem_fill_nil inside)
    have smaller := @member_small _ flaw _ member
    exact means_tree_of_read entry.2 (membersSound_iff.mp sound m member).2
termination_by sizeOf t
decreasing_by all_goals assumption

end Meaning

end Tree

mutual

/-- The tree of a value is as sound as the value. -/
theorem Value.sound_tree : (v : Value) → v.tree.Sound ↔ v.Sound
  | null | bool _ | number _ => Iff.rfl
  | string _ => iff_of_true (fun _ _ => rfl) trivial
  | array items => Value.allSound_trees items
  | object members => Value.membersSound_treeMembers members

theorem Value.allSound_trees : (items : List Value) → Tree.AllSound (trees items) ↔ AllSound items
  | [] => Iff.rfl
  | v :: rest => and_congr v.sound_tree (allSound_trees rest)

theorem Value.membersSound_treeMembers : (members : List (String × Value)) →
    Tree.MembersSound (treeMembers members) ↔ MembersSound members
  | [] => Iff.rfl
  | (name, v) :: rest => by
    simp only [treeMembers, Tree.MembersSound, MembersSound, v.sound_tree, membersSound_treeMembers rest,
      Literal.Sound, implies_true, true_and]

end

namespace Value

/-- The value has a form in a document, and no object in it repeats a name. -/
def Proper (v : Value) : Prop := ∃ u, v.tree.Means u

theorem Proper.sound {v : Value} (proper : v.Proper) : v.Sound := by
  obtain ⟨u, means⟩ := proper
  exact v.sound_tree.mp means.sound

theorem Proper.means {v : Value} (proper : v.Proper) : v.tree.Means v.settle := by
  obtain ⟨u, means⟩ := proper
  have settled := readValue_tree v (Context.Deep.allows (rfl : Context.value.Deep) v.nesting)
  rw [means.read] at settled
  exact Except.ok.inj settled ▸ means

theorem proper_array {items : List Value} (each : ∀ v ∈ items, v.Proper) : (array items).Proper := by
  refine ⟨.array (items.map settle), Tree.means_array_iff.mpr ⟨rfl, items.map settle, ?_, rfl⟩⟩
  rw [trees_eq, List.forall₂_map_left_iff, List.forall₂_map_right_iff, List.forall₂_same]
  exact fun v inside => (each v inside).means

theorem proper_object {members : List (String × Value)} (apart : Entries.Apart members)
    (each : ∀ m ∈ members, m.2.Proper) : (object members).Proper := by
  refine ⟨_, Tree.means_object_iff.mpr ⟨rfl, members.map fun m => (m.1, m.2.settle), ?_, ?_, rfl⟩⟩
  · rw [treeMembers_eq, List.forall₂_map_left_iff, List.forall₂_map_right_iff, List.forall₂_same]
    exact fun m inside => ⟨rfl, rfl, (each m inside).means⟩
  · exact List.pairwise_map.mpr apart

end Value

end BlockPlay.Json

import BlockPlay.Compile.Config
import Mathlib.Data.List.Induction
import Mathlib.Data.List.Perm.Basic
import Mathlib.Data.String.Basic

/-!
Tags and classes after any registrations. A tag belongs to the first class under which it has ever been
registered, in the order of the classes and not in that of the calls, and the tags of a class are a set: only
what is registered counts, not when, how often, or together with what.
-/
namespace BlockPlay

theorem BlockClass.rank_inj {c c' : BlockClass} (same : c.rank = c'.rank) : c = c' := by
  rw [← BlockClass.ofNat_ctorIdx c, ← BlockClass.ofNat_ctorIdx c']
  exact congrArg BlockClass.ofNat same

/-- All the names, in order and each of them once. -/
def insertNames (names known : List String) : List String :=
  names.foldl (fun known name => insertName name known) known

theorem pairwise_insertName {name : String} {known : List String} (rising : known.Pairwise (· < ·)) :
    (insertName name known).Pairwise (· < ·) := by
  induction known with
  | nil => exact List.pairwise_singleton ..
  | cons first rest ih =>
    obtain ⟨least, later⟩ := List.pairwise_cons.mp rising
    rw [insertName]
    split
    next => exact rising
    next different =>
      split
      next below =>
        refine List.pairwise_cons.mpr ⟨fun other inside => ?_, rising⟩
        rcases List.mem_cons.mp inside with rfl | after
        · exact below
        · exact below.trans (least other after)
      next above =>
        refine List.pairwise_cons.mpr ⟨fun other inside => ?_, ih later⟩
        rcases mem_insertName.mp inside with rfl | after
        · exact lt_of_le_of_ne (not_lt.mp above) (Ne.symm different)
        · exact least other after

theorem pairwise_insertNames {names known : List String} (rising : known.Pairwise (· < ·)) :
    (insertNames names known).Pairwise (· < ·) := by
  induction names generalizing known with
  | nil => exact rising
  | cons name names ih => exact ih (pairwise_insertName rising)

theorem mem_insertNames {names known : List String} {name : String} :
    name ∈ insertNames names known ↔ name ∈ names ∨ name ∈ known := by
  induction names generalizing known with
  | nil => simp [insertNames]
  | cons first names ih =>
    have onward : name ∈ insertNames (first :: names) known ↔ name ∈ names ∨ name ∈ insertName first known := ih
    rw [onward, mem_insertName, List.mem_cons]
    exact or_left_comm.trans or_assoc.symm

namespace Config

section Entries

/-- The classes rise, so there is one entry for each. -/
def Rising (entries : List (BlockClass × List String)) : Prop :=
  entries.Pairwise fun a b => a.1.rank < b.1.rank

/-- The tags in the entry of a class. -/
def under (c : BlockClass) (entries : List (BlockClass × List String)) : List String :=
  (entries.find? fun (c', _) => c' = c).elim [] Prod.snd

variable {entries : List (BlockClass × List String)} {c c' : BlockClass} {f : List String → List String}
  {tag : String} {tags : List String}

theorem under_cons (entry : BlockClass × List String) (rest : List (BlockClass × List String)) :
    under c (entry :: rest) = if entry.1 = c then entry.2 else under c rest := by
  rw [under, List.find?_cons]
  by_cases same : entry.1 = c <;> simp [same, under]

theorem under_of_absent (absent : ∀ entry ∈ entries, entry.1 ≠ c) : under c entries = [] := by
  rw [under, List.find?_eq_none.mpr fun entry inside => by simpa using absent entry inside]
  rfl

theorem under_of_mem (rising : Rising entries) (inside : (c, tags) ∈ entries) : under c entries = tags := by
  induction entries with
  | nil => cases inside
  | cons entry rest ih =>
    obtain ⟨least, later⟩ := List.pairwise_cons.mp rising
    rw [under_cons]
    rcases List.mem_cons.mp inside with rfl | after
    · exact if_pos rfl
    · have different : entry.1 ≠ c := fun same => by
        have below := least _ after
        rw [same] at below
        exact absurd below (Nat.lt_irrefl _)
      rw [if_neg different, ih later after]

theorem exists_entry (listed : tag ∈ under c entries) : ∃ tags, (c, tags) ∈ entries ∧ tag ∈ tags := by
  cases found : entries.find? fun (c', _) => c' = c with
  | none =>
    rw [under, found] at listed
    cases listed
  | some entry =>
    obtain ⟨c', tags⟩ := entry
    obtain rfl : c' = c := by simpa using List.find?_some found
    rw [under, found] at listed
    exact ⟨tags, List.mem_of_find?_eq_some found, listed⟩

theorem fst_mem_update {entry : BlockClass × List String} (inside : entry ∈ update c f entries) :
    entry.1 = c ∨ entry ∈ entries := by
  induction entries with
  | nil =>
    obtain rfl := List.mem_singleton.mp inside
    exact .inl rfl
  | cons first rest ih =>
    rw [update] at inside
    split at inside
    next =>
      rcases List.mem_cons.mp inside with rfl | after
      · exact .inl rfl
      · exact .inr (List.mem_cons_of_mem _ after)
    next =>
      split at inside
      next =>
        rcases List.mem_cons.mp inside with rfl | after
        · exact .inl rfl
        · exact .inr after
      next =>
        rcases List.mem_cons.mp inside with rfl | after
        · exact .inr List.mem_cons_self
        · exact (ih after).imp_right (List.mem_cons_of_mem _)

theorem Rising.update (rising : Rising entries) (c : BlockClass) (f : List String → List String) :
    Rising (update c f entries) := by
  induction entries with
  | nil => exact List.pairwise_singleton ..
  | cons first rest ih =>
    obtain ⟨c', tags⟩ := first
    obtain ⟨least, later⟩ := List.pairwise_cons.mp rising
    rw [Config.update]
    split
    next same =>
      subst same
      exact List.pairwise_cons.mpr ⟨least, later⟩
    next different =>
      split
      next below =>
        refine List.pairwise_cons.mpr ⟨fun entry inside => ?_, rising⟩
        rcases List.mem_cons.mp inside with rfl | after
        · exact below
        · exact below.trans (least entry after)
      next above =>
        have apart : c.rank ≠ c'.rank := fun same => different (BlockClass.rank_inj same)
        refine List.pairwise_cons.mpr ⟨fun entry inside => ?_, ih later⟩
        rcases fst_mem_update inside with new | old
        · change ¬ c.rank < c'.rank at above
          change c'.rank < entry.1.rank
          rw [new]
          omega
        · exact least entry old

/-- A change to one class leaves the tags of the others alone. -/
theorem under_update (rising : Rising entries) :
    under c' (update c f entries) = if c' = c then f (under c entries) else under c' entries := by
  induction entries with
  | nil =>
    rw [update, under_cons]
    by_cases same : c' = c <;> simp [same, Ne.symm, under, eq_comm]
  | cons first rest ih =>
    obtain ⟨c'', tags⟩ := first
    obtain ⟨least, later⟩ := List.pairwise_cons.mp rising
    rw [update]
    split
    next same =>
      subst same
      simp only [under_cons, if_pos]
      by_cases here : c' = c <;> simp [here, Ne.symm]
    next different =>
      split
      next below =>
        -- The entry is put before all those of later classes, so the class had none.
        have absent : ∀ entry ∈ (c'', tags) :: rest, entry.1 ≠ c := by
          intro entry inside same
          subst same
          rcases List.mem_cons.mp inside with rfl | after
          · exact different rfl
          · exact absurd (below.trans (least entry after)) (Nat.lt_irrefl _)
        rw [under_cons, under_of_absent absent]
        simp only [eq_comm]
      next above =>
        simp only [under_cons, ih later]
        by_cases here : c' = c
        · subst here
          simp [Ne.symm different]
        · simp [here]

/-- The tag of the first entry that lists it: no class before has it. -/
theorem find?_tag_iff (rising : Rising entries) :
    (entries.find? fun (_, tags) => tags.contains tag).map Prod.fst = some c ↔
      tag ∈ under c entries ∧ ∀ c', tag ∈ under c' entries → c.rank ≤ c'.rank := by
  have first {c : BlockClass} (comes : (entries.find? fun (_, tags) => tags.contains tag).map Prod.fst = some c) :
      tag ∈ under c entries ∧ ∀ c', tag ∈ under c' entries → c.rank ≤ c'.rank := by
    obtain ⟨⟨_, tags⟩, found, rfl⟩ := Option.map_eq_some_iff.mp comes
    obtain ⟨lists, before, after, split, earlier⟩ := List.find?_eq_some_iff_append.mp found
    have inside := List.mem_of_find?_eq_some found
    have here : under _ entries = tags := under_of_mem rising inside
    refine ⟨here.symm ▸ List.contains_iff_mem.mp lists, fun c' listed => ?_⟩
    obtain ⟨tags', among, lists'⟩ := exists_entry listed
    subst split
    rcases List.mem_append.mp among with old | here
    · have silent := earlier _ old
      simp [lists'] at silent
    · rcases List.mem_cons.mp here with same | later
      · exact Nat.le_of_eq (congrArg (fun entry => entry.1.rank) same).symm
      · exact Nat.le_of_lt ((List.pairwise_cons.mp (List.pairwise_append.mp rising).2.1).1 _ later)
  refine ⟨first, fun ⟨listed, least⟩ => ?_⟩
  obtain ⟨tags, inside, lists⟩ := exists_entry listed
  cases found : entries.find? fun (_, tags) => tags.contains tag with
  | none => simpa [lists] using List.find?_eq_none.mp found _ inside
  | some entry =>
    obtain ⟨here, lowest⟩ := first (congrArg (Option.map Prod.fst) found)
    have same := BlockClass.rank_inj (Nat.le_antisymm (least _ here) (lowest _ listed))
    exact congrArg some same.symm

end Entries

/-- The tags that one call registers under a class. -/
abbrev Call := BlockClass × List String

/-- The configuration that calls leave behind, one after the other. -/
def registerAll (calls : List Call) : Config :=
  calls.foldl (fun config call => config.register call.1 call.2) empty

/-- One of the calls registers the tag under the class. -/
def Registers (calls : List Call) (c : BlockClass) (tag : String) : Prop := ∃ tags, (c, tags) ∈ calls ∧ tag ∈ tags

/-- The same calls in another order, split up or put together, made once or several times. -/
inductive Rearranged : List Call → List Call → Prop
  | reordered {calls others : List Call} (perm : calls.Perm others) : Rearranged calls others
  | regrouped (c : BlockClass) (tags more : List String) (calls : List Call) :
      Rearranged ((c, tags ++ more) :: calls) ((c, tags) :: (c, more) :: calls)
  | repeated (call : Call) (calls : List Call) : Rearranged (call :: calls) (call :: call :: calls)
  | back {calls others : List Call} (rearranged : Rearranged calls others) : Rearranged others calls
  | onward {calls middle others : List Call} (first : Rearranged calls middle) (second : Rearranged middle others) :
      Rearranged calls others

/-- What is kept of the tags of all classes: entries in order, and in each of them a set in order. -/
structure Orderly (config : Config) : Prop where
  rising : Rising config.classes
  sorted : ∀ c, (config.tags c).Pairwise (· < ·)

variable {config : Config} {c c' : BlockClass} {tag : String} {new : List String} {calls others : List Call}

theorem orderly_empty : Orderly empty := ⟨.nil, fun _ => .nil⟩

theorem tags_register (orderly : config.Orderly) :
    (config.register c new).tags c' = if c' = c then insertNames new (config.tags c) else config.tags c' :=
  under_update orderly.rising

theorem Orderly.register (orderly : config.Orderly) (c : BlockClass) (new : List String) :
    (config.register c new).Orderly := by
  refine ⟨orderly.rising.update c _, fun c' => ?_⟩
  rw [tags_register orderly]
  split
  next => exact pairwise_insertNames (orderly.sorted c)
  next => exact orderly.sorted c'

theorem classify_eq_some_iff (orderly : config.Orderly) : config.classify tag = some c ↔
    tag ∈ config.tags c ∧ ∀ c', tag ∈ config.tags c' → c.rank ≤ c'.rank :=
  find?_tag_iff orderly.rising

theorem classify_eq_none_iff (orderly : config.Orderly) :
    config.classify tag = none ↔ ∀ c, tag ∉ config.tags c := by
  rw [classify, Option.map_eq_none_iff, List.find?_eq_none]
  constructor
  · intro silent c listed
    obtain ⟨tags, inside, lists⟩ := exists_entry listed
    simpa [lists] using silent _ inside
  · rintro unlisted ⟨c, tags⟩ inside
    have here : config.tags c = tags := under_of_mem orderly.rising inside
    simpa [here] using unlisted c

theorem mem_tags_register (orderly : config.Orderly) :
    tag ∈ (config.register c new).tags c' ↔ c' = c ∧ tag ∈ new ∨ tag ∈ config.tags c' := by
  rw [tags_register orderly]
  split
  next same =>
    subst same
    rw [mem_insertNames]
    simp
  next different => simp [different]

/-- A call takes to its class what belonged to a later class or to none, and moves no other tag. -/
theorem classify_register (orderly : config.Orderly) (c : BlockClass) (new : List String) (tag : String) :
    (tag ∈ new → (∀ c', config.classify tag = some c' → c.rank < c'.rank) →
      (config.register c new).classify tag = some c) ∧
    ((config.register c new).classify tag ≠ config.classify tag →
      tag ∈ new ∧ ∀ c', config.classify tag = some c' → c.rank < c'.rank) := by
  have orderly' := orderly.register c new
  constructor
  · intro among above
    refine (classify_eq_some_iff orderly').mpr ⟨(mem_tags_register orderly).mpr (.inl ⟨rfl, among⟩), fun c' listed => ?_⟩
    rcases (mem_tags_register orderly).mp listed with ⟨rfl, -⟩ | old
    · exact Nat.le_refl _
    · cases known : config.classify tag with
      | none => exact absurd old ((classify_eq_none_iff orderly).mp known c')
      | some least =>
        exact Nat.le_of_lt (Nat.lt_of_lt_of_le (above least known) (((classify_eq_some_iff orderly).mp known).2 c' old))
  · intro changed
    -- What has a class that the call does not come before keeps it.
    by_contra! unmoved
    by_cases among : tag ∈ new
    · obtain ⟨least, known, before⟩ := unmoved among
      obtain ⟨listed, lowest⟩ := (classify_eq_some_iff orderly).mp known
      refine changed (Eq.trans ?_ known.symm)
      refine (classify_eq_some_iff orderly').mpr
        ⟨(mem_tags_register orderly).mpr (.inr listed), fun c' inside => ?_⟩
      rcases (mem_tags_register orderly).mp inside with ⟨rfl, -⟩ | old
      · exact before
      · exact lowest c' old
    · have same (c' : BlockClass) : tag ∈ (config.register c new).tags c' ↔ tag ∈ config.tags c' := by
        rw [mem_tags_register orderly]
        simp [among]
      refine changed (Option.ext fun c' => ?_)
      rw [classify_eq_some_iff orderly', classify_eq_some_iff orderly]
      simp only [same]

theorem registerAll_concat (calls : List Call) (c : BlockClass) (new : List String) :
    registerAll (calls ++ [(c, new)]) = (registerAll calls).register c new := List.foldl_concat ..

theorem orderly_registerAll (calls : List Call) : (registerAll calls).Orderly := by
  induction calls using List.reverseRecOn with
  | nil => exact orderly_empty
  | append_singleton calls call ih =>
    rw [registerAll_concat]
    exact ih.register call.1 call.2

theorem mem_tags_registerAll : tag ∈ (registerAll calls).tags c ↔ Registers calls c tag := by
  induction calls using List.reverseRecOn with
  | nil => exact iff_of_false List.not_mem_nil (by simp [Registers])
  | append_singleton calls call ih =>
    obtain ⟨c', new⟩ := call
    rw [registerAll_concat, mem_tags_register (orderly_registerAll calls), ih]
    simp only [Registers, List.mem_append, List.mem_singleton, Prod.mk.injEq]
    constructor
    · rintro (⟨rfl, among⟩ | ⟨tags, made, listed⟩)
      · exact ⟨new, .inr ⟨rfl, rfl⟩, among⟩
      · exact ⟨tags, .inl made, listed⟩
    · rintro ⟨tags, made | ⟨rfl, rfl⟩, listed⟩
      · exact .inr ⟨tags, made, listed⟩
      · exact .inl ⟨rfl, listed⟩

theorem Rearranged.registers (rearranged : Rearranged calls others) (c : BlockClass) (tag : String) :
    Registers calls c tag ↔ Registers others c tag := by
  induction rearranged with
  | reordered perm => simp only [Registers, perm.mem_iff]
  | regrouped c' tags more calls =>
    simp only [Registers, List.mem_cons, Prod.mk.injEq]
    constructor
    · rintro ⟨_, ⟨rfl, rfl⟩ | later, listed⟩
      · rcases List.mem_append.mp listed with first | second
        · exact ⟨tags, .inl ⟨rfl, rfl⟩, first⟩
        · exact ⟨more, .inr (.inl ⟨rfl, rfl⟩), second⟩
      · exact ⟨_, .inr (.inr later), listed⟩
    · rintro ⟨_, ⟨rfl, rfl⟩ | ⟨rfl, rfl⟩ | later, listed⟩
      · exact ⟨_, .inl ⟨rfl, rfl⟩, List.mem_append_left _ listed⟩
      · exact ⟨_, .inl ⟨rfl, rfl⟩, List.mem_append_right _ listed⟩
      · exact ⟨_, .inr later, listed⟩
  | repeated call calls => simp [Registers]
  | back _ ih => exact ih.symm
  | onward _ _ first second => exact first.trans second

theorem registerAll_congr (same : ∀ c tag, Registers calls c tag ↔ Registers others c tag) :
    (registerAll others).classify = (registerAll calls).classify ∧
      (registerAll others).tags = (registerAll calls).tags := by
  have first := orderly_registerAll calls
  have second := orderly_registerAll others
  constructor
  · funext tag
    refine Option.ext fun c => ?_
    rw [classify_eq_some_iff second, classify_eq_some_iff first]
    simp only [mem_tags_registerAll, same]
  · funext c
    -- Two sets in order with the same tags are the same list.
    have perm : ((registerAll others).tags c).Perm ((registerAll calls).tags c) := by
      refine (List.perm_ext_iff_of_nodup ((second.sorted c).imp ne_of_lt)
        ((first.sorted c).imp ne_of_lt)).mpr fun tag => ?_
      rw [mem_tags_registerAll, mem_tags_registerAll, same]
    exact perm.eq_of_pairwise (fun _ _ _ _ below above => absurd above below.asymm) (second.sorted c) (first.sorted c)

/-- A configuration built by any calls knows a tag by the first of the classes under which one of them registers it,
and lists the tags of a class once each, in order. So it does not matter how the calls are arranged; and one more call
takes just those of its tags to its class that belonged to a later one or to none. -/
theorem registrations_settle (calls : List Call) :
    (∀ tag, (∀ c, (registerAll calls).classify tag = some c ↔
        Registers calls c tag ∧ ∀ c', Registers calls c' tag → c.rank ≤ c'.rank) ∧
      ((registerAll calls).classify tag = none ↔ ∀ c, ¬ Registers calls c tag)) ∧
    (∀ c, ((registerAll calls).tags c).Pairwise (· < ·) ∧
      ∀ tag, tag ∈ (registerAll calls).tags c ↔ Registers calls c tag) ∧
    (∀ others, Rearranged calls others ∨ (∀ c tag, Registers calls c tag ↔ Registers others c tag) →
      (registerAll others).classify = (registerAll calls).classify ∧
        (registerAll others).tags = (registerAll calls).tags) ∧
    ∀ c new tag,
      (tag ∈ new → (∀ c', (registerAll calls).classify tag = some c' → c.rank < c'.rank) →
        ((registerAll calls).register c new).classify tag = some c) ∧
      (((registerAll calls).register c new).classify tag ≠ (registerAll calls).classify tag →
        tag ∈ new ∧ ∀ c', (registerAll calls).classify tag = some c' → c.rank < c'.rank) := by
  have orderly := orderly_registerAll calls
  refine ⟨fun tag => ⟨fun c => ?_, ?_⟩, fun c => ⟨orderly.sorted c, fun tag => mem_tags_registerAll⟩, ?_,
    fun c new tag => classify_register orderly c new tag⟩
  · rw [classify_eq_some_iff orderly]
    simp only [mem_tags_registerAll]
  · rw [classify_eq_none_iff orderly]
    simp only [mem_tags_registerAll]
  · rintro others (rearranged | same)
    · exact registerAll_congr rearranged.registers
    · exact registerAll_congr same

example : (registerAll [(.back, ["step"]), (.move, ["walk", "step", "step"])]).classify "step" = some .move ∧
    (registerAll [(.back, ["step"]), (.move, ["walk", "step", "step"])]).tags .move = ["step", "walk"] := by decide

end Config

end BlockPlay

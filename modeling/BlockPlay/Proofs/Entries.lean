import BlockPlay.Entries
import Mathlib.Data.String.Basic
import Mathlib.Data.List.Nodup
import Mathlib.Data.List.Perm.Basic

/-!
Entries in order. There is one way to put entries with different names in order, whichever is put first.
-/
namespace BlockPlay.Entries

variable {α : Type} {name : String} {value : α} {entries others : Entries α}

/-- The names rise, so there is one entry for each. -/
def Ordered (entries : Entries α) : Prop := entries.Pairwise fun a b => a.1 < b.1

theorem ordered_iff : Ordered entries ↔ (entries.map Prod.fst).Pairwise (· < ·) := List.pairwise_map.symm

/-- No two entries have the same name. -/
def Apart (entries : List (String × α)) : Prop := entries.Pairwise fun a b => a.1 ≠ b.1

theorem Ordered.apart (ordered : Ordered entries) : Apart entries := ordered.imp fun below => below.ne

theorem Apart.eq_of_mem {a b : String × α} (apart : Apart entries) (first : a ∈ entries) (second : b ∈ entries)
    (same : a.1 = b.1) : a = b :=
  List.inj_on_of_nodup_map (List.pairwise_map.mpr apart) first second same

theorem mem_of_get? (found : get? name entries = some value) : (name, value) ∈ entries := by
  induction entries with
  | nil => cases found
  | cons e rest ih =>
    obtain ⟨n, v⟩ := e
    rw [get?] at found
    split at found
    next same =>
      cases found
      exact same ▸ List.mem_cons_self
    next => exact List.mem_cons_of_mem _ (ih found)

theorem mem_put {entry : String × α} (inside : entry ∈ put name value entries) :
    entry = (name, value) ∨ entry ∈ entries := by
  induction entries with
  | nil => exact .inl (List.mem_singleton.mp inside)
  | cons first rest ih =>
    obtain ⟨n, v⟩ := first
    rw [put] at inside
    split at inside
    next => exact (List.mem_cons.mp inside).imp_right (List.mem_cons_of_mem _)
    next =>
      split at inside
      next => exact List.mem_cons.mp inside
      next =>
        rcases List.mem_cons.mp inside with rfl | later
        · exact .inr List.mem_cons_self
        · exact (ih later).imp_right (List.mem_cons_of_mem _)

theorem Ordered.put (ordered : Ordered entries) (name : String) (value : α) :
    Ordered (put name value entries) := by
  induction entries with
  | nil => exact List.pairwise_singleton ..
  | cons first rest ih =>
    obtain ⟨n, v⟩ := first
    obtain ⟨least, later⟩ := List.pairwise_cons.mp ordered
    rw [Entries.put]
    split
    next same =>
      subst same
      exact List.pairwise_cons.mpr ⟨least, later⟩
    next different =>
      split
      next below =>
        refine List.pairwise_cons.mpr ⟨fun entry inside => ?_, ordered⟩
        rcases List.mem_cons.mp inside with rfl | after
        · exact below
        · exact below.trans (least entry after)
      next above =>
        refine List.pairwise_cons.mpr ⟨fun entry inside => ?_, ih later⟩
        rcases mem_put inside with rfl | after
        · exact lt_of_le_of_ne (not_lt.mp above) (Ne.symm different)
        · exact least entry after

theorem put_perm (fresh : ∀ entry ∈ entries, entry.1 ≠ name) :
    (put name value entries).Perm ((name, value) :: entries) := by
  induction entries with
  | nil => exact .refl _
  | cons first rest ih =>
    obtain ⟨n, v⟩ := first
    have different : name ≠ n := (fresh (n, v) List.mem_cons_self).symm
    rw [put, if_neg different]
    split
    next => exact .refl _
    next =>
      have onward := ih fun entry inside => fresh entry (List.mem_cons_of_mem _ inside)
      exact (onward.cons (n, v)).trans (.swap ..)

theorem Ordered.eq_of_perm (ordered : Ordered entries) (same : Ordered others) (perm : entries.Perm others) :
    entries = others :=
  perm.eq_of_pairwise (fun _ _ _ _ below above => absurd above below.asymm) ordered same

section Filling

variable {found : Entries α}

/-- Puts entries one after the other. -/
def fill (found : Entries α) (entries : List (String × α)) : Entries α :=
  entries.foldl (fun found entry => put entry.1 entry.2 found) found

theorem Ordered.fill (ordered : Ordered found) (entries : List (String × α)) : Ordered (fill found entries) := by
  induction entries generalizing found with
  | nil => exact ordered
  | cons entry entries ih => exact ih (ordered.put entry.1 entry.2)

theorem fill_perm (apart : Apart entries) (fresh : ∀ a ∈ entries, ∀ b ∈ found, b.1 ≠ a.1) :
    (fill found entries).Perm (entries ++ found) := by
  induction entries generalizing found with
  | nil => exact .refl _
  | cons entry entries ih =>
    obtain ⟨first, later⟩ := List.pairwise_cons.mp apart
    have put : (put entry.1 entry.2 found).Perm (entry :: found) := put_perm (fresh entry List.mem_cons_self)
    have onward : (fill (Entries.put entry.1 entry.2 found) entries).Perm _ :=
      ih later fun a inside b present => by
        rcases mem_put present with rfl | old
        · exact first a inside
        · exact fresh a (List.mem_cons_of_mem _ inside) b old
    exact (onward.trans (put.append_left entries)).trans List.perm_middle

theorem fill_nil_perm (apart : Apart entries) : (fill [] entries).Perm entries := by
  have perm : (fill [] entries).Perm (entries ++ []) := fill_perm apart nofun
  rwa [List.append_nil] at perm

theorem mem_fill {entry : String × α} (inside : entry ∈ fill found entries) :
    entry ∈ entries ∨ entry ∈ found := by
  induction entries generalizing found with
  | nil => exact .inr inside
  | cons first entries ih =>
    rcases ih inside with later | put
    · exact .inl (List.mem_cons_of_mem _ later)
    · rcases mem_put put with rfl | old
      · exact .inl List.mem_cons_self
      · exact .inr old

theorem mem_fill_nil {entry : String × α} (inside : entry ∈ fill [] entries) : entry ∈ entries :=
  (mem_fill inside).resolve_right List.not_mem_nil

/-- Entries with different names are put in order in one way. -/
theorem fill_eq_of_perm (apart : Apart entries) (perm : entries.Perm others) :
    fill [] entries = fill [] others := by
  have different : Apart others := perm.pairwise apart fun unequal => unequal.symm
  exact Ordered.eq_of_perm (.fill .nil _) (.fill .nil _)
    ((fill_nil_perm apart).trans (perm.trans (fill_nil_perm different).symm))

theorem Ordered.fill_eq (ordered : Ordered entries) : Entries.fill [] entries = entries :=
  Ordered.eq_of_perm (.fill .nil _) ordered (fill_nil_perm ordered.apart)

end Filling

end BlockPlay.Entries

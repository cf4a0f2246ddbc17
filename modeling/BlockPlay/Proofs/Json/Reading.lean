import BlockPlay.Proofs.Json.Document

/-!
Values read back. A reader that allows as many containers in one another as a value has reads the tree of the
value as the value, but for the members of its objects, which are then in order.
-/
namespace BlockPlay.Json

namespace Context

/-- Containers may be opened to this depth. -/
def Allows (c : Context) (depth : Nat) : Prop := ∀ room, c.room = some room → depth ≤ room

theorem Allows.mono {c : Context} {m n : Nat} (allows : c.Allows n) (less : m ≤ n) : c.Allows m :=
  fun room given => Nat.le_trans less (allows room given)

theorem Allows.enter {c : Context} {n : Nat} (allows : c.Allows (n + 1)) :
    ∃ inner, c.enter = .ok inner ∧ inner.Allows n ∧ inner.source = c.source := by
  obtain ⟨source, room⟩ := c
  rcases room with _ | _ | room
  · exact ⟨_, rfl, nofun, rfl⟩
  · exact absurd (allows 0 rfl) (Nat.not_succ_le_zero n)
  · refine ⟨⟨source, some room⟩, rfl, ?_, rfl⟩
    rintro _ ⟨⟩
    exact Nat.le_of_succ_le_succ (allows (room + 1) rfl)

end Context

namespace Value

mutual

/-- The number of containers in one another. -/
def nesting : Value → Nat
  | array items => nestings items + 1
  | object members => memberNestings members + 1
  | _ => 0

def nestings : List Value → Nat
  | [] => 0
  | v :: rest => max v.nesting (nestings rest)

def memberNestings : List (String × Value) → Nat
  | [] => 0
  | (_, v) :: rest => max v.nesting (memberNestings rest)

end

theorem memberNestings_eq_zero {members : List (String × Value)} (flat : ∀ m ∈ members, m.2.nesting = 0) :
    memberNestings members = 0 := by
  induction members with
  | nil => rfl
  | cons m members ih =>
    rw [memberNestings, flat m List.mem_cons_self, ih fun m inside => flat m (List.mem_cons_of_mem _ inside),
      Nat.max_self]

mutual

/-- The value with the members of all objects in order. -/
def settle : Value → Value
  | array items => array (settleItems items)
  | object members => object (settleMembers [] members)
  | v => v

def settleItems : List Value → List Value
  | [] => []
  | v :: rest => v.settle :: settleItems rest

def settleMembers (found : Entries Value) : List (String × Value) → Entries Value
  | [] => found
  | (name, v) :: rest => settleMembers (Entries.put name v.settle found) rest

end

mutual

theorem readValue_tree {c : Context} : (v : Value) → c.Allows v.nesting → v.tree.readValue c = .ok v.settle
  | null, _ | bool _, _ | number _, _ | string _, _ => rfl
  | array items, allows => by
    obtain ⟨inner, entered, room, -⟩ := allows.enter
    have inside := readValues_trees items room
    simp only [tree, Tree.readValue, entered, inside, failOn, bind, Except.bind, pure, Except.pure, settle]
  | object members, allows => by
    obtain ⟨inner, entered, room, -⟩ := allows.enter
    have inside := readNamed_treeMembers [] members room
    simp only [tree, Tree.readValue, entered, inside, failOn, bind, Except.bind, pure, Except.pure, settle]

theorem readValues_trees {c : Context} : (items : List Value) → c.Allows (nestings items) →
    Tree.readValues c (trees items) = .ok (settleItems items)
  | [], _ => rfl
  | v :: rest, allows => by
    have first := readValue_tree v (allows.mono (Nat.le_max_left ..))
    have others := readValues_trees rest (allows.mono (Nat.le_max_right ..))
    simp only [trees, Tree.readValues, first, others, bind, Except.bind, pure, Except.pure, settleItems]

theorem readNamed_treeMembers {c : Context} (found : Entries Value) : (members : List (String × Value)) →
    c.Allows (memberNestings members) →
      Tree.readNamed c found (treeMembers members) = .ok (settleMembers found members)
  | [], _ => rfl
  | (name, v) :: rest, allows => by
    have first := readValue_tree v (allows.mono (Nat.le_max_left ..))
    have others := readNamed_treeMembers (Entries.put name v.settle found) rest
      (allows.mono (Nat.le_max_right ..))
    simp only [treeMembers, Tree.readNamed, Literal.read, first, bind, Except.bind]
    exact others

end

end Value

theorem Document.read_whole {α : Type} (t : Tree) (reader : Tree → Except Problem α) :
    (⟨t, false⟩ : Document).read reader = reader t := by
  rw [Document.read]
  cases reader t <;> rfl

namespace Value

/-- What is written of a value is read as the value, with the members of its objects in order. -/
theorem ofBytes_render {v : Value} (sound : v.Sound) (shallow : v.nesting ≤ 127) :
    Value.ofBytes (Text.bytes v.render) = .ok v.settle ∧
      Value.ofBytes (Text.bytes v.renderPretty) = .ok v.settle := by
  have allows : Context.text.Allows v.nesting := by
    rintro _ ⟨⟩
    exact shallow
  have read := readValue_tree v allows
  have compact := (scanned_render sound).document (List.forall_mem_nil _)
  have pretty := (scanned_renderPretty sound).document (List.forall_mem_nil _)
  rw [List.append_nil] at compact pretty
  rw [Value.ofBytes, Value.ofBytes, compact, pretty, Document.read_whole, read]
  exact ⟨rfl, rfl⟩

end Value

end BlockPlay.Json

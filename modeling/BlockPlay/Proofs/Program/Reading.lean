import BlockPlay.Program.Document
import BlockPlay.Proofs.Json.Reading
import BlockPlay.Proofs.Program.Outline

/-!
Programs read back from what is written of them.
-/
namespace BlockPlay

open Json (Value Tree Context Problem)

namespace Action

theorem name_ne_repeat (action : Action) : action.name ≠ "repeat" := by
  cases action <;> simp [name]

theorem names_contains (action : Action) : Op.names.contains action.name := by
  cases action <;> rfl

/-- No argument has the name of the block or of the instruction. -/
theorem arguments_apart (action : Action) : ∀ m ∈ action.arguments, m.1 ≠ "block" ∧ m.1 ≠ "op" := by
  cases action <;> simp [arguments]

theorem nesting_finite (x : Float) : (Value.finite x).nesting = 0 := by
  rw [Value.finite]
  split <;> rfl

/-- No argument nests. -/
theorem arguments_flat (action : Action) : ∀ m ∈ action.arguments, m.2.nesting = 0 := by
  cases action <;> simp [arguments, nesting_finite, Value.natural, Value.nesting]

theorem sound_natural {n : Nat} (fits : n < UInt64.size) : (Value.natural n).Sound := by
  have least : Int64.minValue.toInt ≤ 0 := by decide
  exact ⟨by omega, by omega⟩

theorem sound_finite (x : Float) : (Value.finite x).Sound := by
  rw [Value.finite]
  split
  next finite => exact finite
  next => trivial

theorem sound_arguments (action : Action) : Value.MembersSound action.arguments := by
  cases action with
  | move k =>
    have low : (-2 ^ 31 : Int) ≤ k.toInt := k.minValue_le_toInt
    have high : k.toInt ≤ 2 ^ 31 - 1 := k.toInt_le
    have least : Int64.minValue.toInt = -2 ^ 63 := rfl
    have most : (UInt64.size : Int) = 2 ^ 64 := rfl
    exact ⟨⟨by omega, by omega⟩, trivial⟩
  | wait k => exact ⟨sound_natural k.toNat_lt, trivial⟩
  | turn d x => exact ⟨trivial, sound_finite x, trivial⟩
  | width x => exact ⟨sound_finite x, trivial⟩
  | pen down | color c => exact ⟨trivial, trivial⟩
  | start | collect | plant | water | harvest => trivial

end Action

namespace Op

open Json

section Members

variable {c : Context} {args : List (String × Value)}

/-- The members of an op: its block, its instruction and its arguments. -/
def members (block : BlockId) (name : String) (args : List (String × Value)) : List (String × Value) :=
  ("block", .string block.text) :: ("op", .string name) :: args

theorem readBlock_skip {block : Option BlockId} (apart : ∀ m ∈ args, m.1 ≠ "block")
    (whole : ∀ m ∈ args, ∃ kept, m.2.tree.readValue c = .ok kept) :
    readBlock c block (Value.treeMembers args) = .ok block := by
  induction args with
  | nil => rfl
  | cons m args ih =>
    obtain ⟨name, v⟩ := m
    obtain ⟨kept, first⟩ := whole (name, v) List.mem_cons_self
    have others := ih (fun m inside => apart m (List.mem_cons_of_mem _ inside))
      fun m inside => whole m (List.mem_cons_of_mem _ inside)
    have other : (name == "block") = false := beq_false_of_ne (apart (name, v) List.mem_cons_self)
    simp only [Value.treeMembers, readBlock, Literal.read, other, first, others, bind, Except.bind]
    rfl

theorem readTag_skip (tag : Option String) (apart : ∀ m ∈ args, m.1 ≠ "op") :
    readTag tag (Value.treeMembers args) = .ok tag := by
  induction args with
  | nil => rfl
  | cons m args ih =>
    obtain ⟨name, v⟩ := m
    have others := ih fun m inside => apart m (List.mem_cons_of_mem _ inside)
    have other : (name == "op") = false := beq_false_of_ne (apart (name, v) List.mem_cons_self)
    simp only [Value.treeMembers, readTag, Literal.read, other, others, bind, Except.bind]
    rfl

theorem readBlock_members (block : BlockId) (name : String) (apart : ∀ m ∈ args, m.1 ≠ "block")
    (whole : ∀ m ∈ args, ∃ kept, m.2.tree.readValue c = .ok kept) :
    readBlock c none (Value.treeMembers (members block name args)) = .ok (some block) :=
  readBlock_skip apart whole

theorem readTag_members (block : BlockId) {name : String} (known : names.contains name)
    (apart : ∀ m ∈ args, m.1 ≠ "op") :
    readTag none (Value.treeMembers (members block name args)) = .ok (some name) := by
  have rest := readTag_skip (some name) apart
  have found : Tree.variant names name = .ok name := if_pos known
  simp only [members, Value.treeMembers, readTag, Literal.read, Value.tree, readName, bind, Except.bind, found]
  exact rest

end Members

theorem readInteger_of_le {low high n : Int} {wanted : String} (least : low ≤ n) (most : n ≤ high) :
    Tree.readInteger low high wanted (Value.number (.integer n)).tree = .ok n := by
  rw [Value.tree, Tree.readInteger, decide_eq_true least, decide_eq_true most]
  rfl

theorem readInt32_toInt (k : Int32) : Tree.readInt32 (Value.number (.integer k.toInt)).tree = .ok k := by
  rw [Tree.readInt32, readInteger_of_le k.minValue_le_toInt k.toInt_le]
  exact congrArg Except.ok k.ofInt_toInt

theorem readUInt32_toNat (k : UInt32) : Tree.readUInt32 (Value.natural k.toNat).tree = .ok k := by
  have most : k.toNat < UInt32.size := k.toNat_lt
  rw [Tree.readUInt32, Value.natural, readInteger_of_le (Int.natCast_nonneg _) (by omega)]
  exact congrArg Except.ok k.ofNat_toNat

theorem readUInt64_toNat (k : UInt64) : Tree.readUInt64 (Value.natural k.toNat).tree = .ok k := by
  have most : k.toNat < UInt64.size := k.toNat_lt
  rw [Tree.readUInt64, Value.natural, readInteger_of_le (Int.natCast_nonneg _) (by omega)]
  exact congrArg Except.ok k.ofNat_toNat

theorem readFloat_finite {x : Float} (finite : x.isFinite) : Tree.readFloat (Value.finite x).tree = .ok x := by
  rw [Value.finite, if_pos finite]
  rfl

theorem readFloat_null {x : Float} (infinite : ¬ x.isFinite) :
    Tree.readFloat (Value.finite x).tree = .error (.wrongType .null "f64") := by
  rw [Value.finite, if_neg infinite]
  rfl

theorem readDirection_name (d : Direction) : readDirection .kept (Value.string d.name).tree = .ok d := by
  cases d <;> rfl

section Fields

variable {n : Nat} {c : Context} {fields : List (Tree.Field n Op)} {name : String} {t : Tree}
  {rest : List (Literal × Tree)} {small : ∀ m ∈ (⟨.ok name, none⟩, t) :: rest, sizeOf m.2 < n}
  {seen : List String} {op : Op}

theorem readMembers_other (unknown : fields.find? (·.name == name) = none) (whole : t.skip = .ok ()) :
    Tree.readMembers c fields ((⟨.ok name, none⟩, t) :: rest) small seen op =
      Tree.readMembers c fields rest (fun m inside => small m (List.mem_cons_of_mem _ inside)) seen op := by
  simp only [Tree.readMembers, Literal.read, unknown, whole, bind, Except.bind]

theorem readMembers_field {κ : Type} {required : Bool} {read : Context → Tree → Except Problem κ}
    {set : κ → Op → Op} {k : κ}
    (known : fields.find? (·.name == name) = some (Tree.field name required read set))
    (new : seen.contains name = false) (reads : read c t = .ok k) :
    Tree.readMembers c fields ((⟨.ok name, none⟩, t) :: rest) small seen op =
      Tree.readMembers c fields rest (fun m inside => small m (List.mem_cons_of_mem _ inside)) (name :: seen)
        (set k op) := by
  simp only [Tree.readMembers, Literal.read, known, new, Tree.field, reads, bind, Except.bind, Except.map,
    Bool.false_eq_true, if_false]

theorem readMembers_last {f : Tree.Field n Op}
    {small : ∀ m ∈ [((⟨.ok name, none⟩ : Literal), t)], sizeOf m.2 < n}
    (known : fields.find? (·.name == name) = some f) (new : seen.contains name = false) :
    Tree.readMembers c fields [((⟨.ok name, none⟩ : Literal), t)] small seen op =
      (f.read c t (small (⟨.ok name, none⟩, t) List.mem_cons_self) op).map fun op => (name :: seen, op) := by
  simp only [Tree.readMembers, Literal.read, known, new, bind, Except.bind, Bool.false_eq_true, if_false]
  rfl

theorem readMembers_fails {κ : Type} {required : Bool} {read : Context → Tree → Except Problem κ}
    {set : κ → Op → Op} {problem : Problem}
    (known : fields.find? (·.name == name) = some (Tree.field name required read set))
    (new : seen.contains name = false) (fails : read c t = .error problem) :
    Tree.readMembers c fields ((⟨.ok name, none⟩, t) :: rest) small seen op = .error problem := by
  simp only [Tree.readMembers, Literal.read, known, new, Tree.field, fails, bind, Except.bind, Except.map,
    Bool.false_eq_true, if_false]

end Fields

section Leaf

variable {n : Nat} (block : BlockId) (action : Action)

def leafMembers : List (String × Value) := members block action.name action.arguments

variable (small : ∀ m ∈ Value.treeMembers (leafMembers block action), sizeOf m.2 < n)

/-- The arguments are read behind the block and the instruction. -/
theorem readMembers_head (op : Op) :
    Tree.readMembers .kept (fields action.name) (Value.treeMembers (leafMembers block action)) small [] op =
      Tree.readMembers .kept (fields action.name) (Value.treeMembers action.arguments)
        (fun m inside => small m (List.mem_cons_of_mem _ (List.mem_cons_of_mem _ inside))) [] op := by
  refine (readMembers_other ?_ rfl).trans (readMembers_other ?_ rfl)
  all_goals cases action <;> rfl

theorem readMembers_leaf (finite : action.Finite) :
    ∃ seen, Tree.readMembers .kept (fields action.name) (Value.treeMembers (leafMembers block action)) small []
        (blank block action.name) = .ok (seen, .leaf block action) ∧
      Tree.lacking? (fields (n := n) action.name) seen = none := by
  rw [readMembers_head]
  cases action with
  | start | collect | plant | water | harvest => exact ⟨[], rfl, rfl⟩
  | move k => exact ⟨["steps"], (readMembers_field rfl rfl (readInt32_toInt k)).trans rfl, rfl⟩
  | turn d x =>
    have first := readDirection_name d
    have second := readFloat_finite finite
    exact ⟨["degrees", "direction"],
      (readMembers_field rfl rfl first).trans ((readMembers_field rfl rfl second).trans rfl), rfl⟩
  | wait k => exact ⟨["millis"], (readMembers_field rfl rfl (readUInt64_toNat k)).trans rfl, rfl⟩
  | pen down => exact ⟨["down"], rfl, rfl⟩
  | color c => exact ⟨["color"], rfl, rfl⟩
  | width x => exact ⟨["width"], (readMembers_field rfl rfl (readFloat_finite finite)).trans rfl, rfl⟩

/-- A number that is not finite is written as nothing, which is no number. -/
theorem readMembers_infinite (infinite : ¬ action.Finite) :
    Tree.readMembers .kept (fields action.name) (Value.treeMembers (leafMembers block action)) small []
      (blank block action.name) = .error (.wrongType .null "f64") := by
  rw [readMembers_head]
  cases action with
  | turn d x =>
    have first := readDirection_name d
    have second := readFloat_null infinite
    exact (readMembers_field rfl rfl first).trans (readMembers_fails rfl rfl second)
  | width x => exact readMembers_fails rfl rfl (readFloat_null infinite)
  | _ => exact absurd trivial infinite

theorem readBlock_leaf (c : Context) :
    readBlock c none (Value.treeMembers (leafMembers block action)) = .ok (some block) := by
  refine readBlock_members block action.name (fun m inside => (action.arguments_apart m inside).1) ?_
  intro m inside
  have allows : c.Allows m.2.nesting := by
    rw [action.arguments_flat m inside]
    exact fun room _ => Nat.zero_le room
  exact ⟨m.2.settle, Value.readValue_tree m.2 allows⟩

theorem readTag_leaf : readTag none (Value.treeMembers (leafMembers block action)) = .ok (some action.name) :=
  readTag_members block action.names_contains fun m inside => (action.arguments_apart m inside).2

/-- A leaf is read by its members. -/
theorem read_leaf (c : Context) :
    read c (leaf block action).toValue.tree = c.enter.bind fun _ =>
      (Tree.readMembers .kept (fields action.name) (Value.treeMembers (leafMembers block action))
        (fun _ inside => @Tree.member_small _ none _ inside) [] (blank block action.name)).bind
        fun (seen, op) =>
          match Tree.lacking? (fields (n := sizeOf (Tree.object (Value.treeMembers (leafMembers block action))
            none)) action.name) seen with
          | some field => .error (.missingField field)
          | none => .ok op := by
  change read c (.object (Value.treeMembers (leafMembers block action)) none) = _
  rw [read]
  cases c.enter with
  | error problem => rfl
  | ok inner =>
    simp only [readBlock_leaf, readTag_leaf, failOn, bind, Except.bind, if_neg action.name_ne_repeat]
    rfl

end Leaf

def loopMembers (block : BlockId) (count : UInt32) (body : Value) : List (String × Value) :=
  members block "repeat" [("count", .natural count.toNat), ("body", body)]

theorem readBlock_loop (c : Context) (block : BlockId) (count : UInt32) (body : Value) :
    readBlock c none (Value.treeMembers (loopMembers block count body)) =
      (body.tree.readValue c).map fun _ => some block := by
  change readBlock c (some block) [(⟨.ok "body", none⟩, body.tree)] = _
  simp only [readBlock, Literal.read, bind, Except.bind]
  cases body.tree.readValue c <;> rfl

theorem readTag_loop (block : BlockId) (count : UInt32) (body : Value) :
    readTag none (Value.treeMembers (loopMembers block count body)) = .ok (some "repeat") :=
  readTag_members block (by decide) (by simp)

/-- A loop is read by its body, which must be a value first. -/
theorem read_loop (c : Context) (block : BlockId) (count : UInt32) (body : List Op) :
    read c (loop block count body).toValue.tree = c.enter.bind fun inner =>
      ((Value.array (toValues body)).tree.readValue inner).bind fun _ =>
        ((Value.array (toValues body)).tree.readList .kept (Tree.anySize read)).map fun ops =>
          .loop block count ops := by
  change read c (.object (Value.treeMembers (loopMembers block count (.array (toValues body)))) none) = _
  generalize Value.array (toValues body) = value
  rw [read]
  cases c.enter with
  | error problem => rfl
  | ok inner =>
    cases whole : value.tree.readValue inner with
    | error problem => simp only [readBlock_loop, whole, bind, Except.bind, Except.map]
    | ok kept =>
      simp only [readBlock_loop, whole, readTag_loop, failOn, bind, Except.bind, Except.map, if_true]
      simp only [loopMembers, members, Value.treeMembers]
      rw [readMembers_other rfl rfl, readMembers_other rfl rfl,
        readMembers_field rfl rfl (readUInt32_toNat count), readMembers_last rfl rfl]
      have reader : (Tree.anySize read : Tree.Below (sizeOf value.tree) Op) = fun c t _ => read c t := rfl
      rw [reader]
      dsimp only
      cases Tree.readList .kept value.tree fun c t _ => read c t <;> rfl

mutual

/-- The numbers in the op, and in all ops inside it, are finite. -/
def Finite : Op → Prop
  | leaf _ action => action.Finite
  | loop _ _ body => AllFinite body

def AllFinite : List Op → Prop
  | [] => True
  | op :: ops => op.Finite ∧ AllFinite ops

end

mutual

theorem nesting_toValue : (op : Op) → op.toValue.nesting ≤ 2 * op.depth
  | leaf block action => by
    have flat := Value.memberNestings_eq_zero action.arguments_flat
    simp only [toValue, Value.nesting, Value.memberNestings, flat, depth]
    omega
  | loop block count body => by
    have inside := nestings_toValues body
    simp only [toValue, Value.nesting, Value.memberNestings, Value.natural, depth]
    omega

theorem nestings_toValues : (ops : List Op) → Value.nestings (toValues ops) ≤ 2 * depths ops
  | [] => Nat.le_refl 0
  | op :: ops => by
    have first := nesting_toValue op
    have others := nestings_toValues ops
    simp only [toValues, Value.nestings, depths]
    omega

end

mutual

theorem sound_toValue : (op : Op) → op.toValue.Sound
  | leaf block action => ⟨trivial, trivial, action.sound_arguments⟩
  | loop block count body => by
    have fits : count.toNat < UInt64.size := Nat.lt_trans count.toNat_lt (by decide)
    exact ⟨trivial, trivial, Action.sound_natural fits, sound_toValues body, trivial⟩

theorem sound_toValues : (ops : List Op) → Value.AllSound (toValues ops)
  | [] => trivial
  | op :: ops => ⟨sound_toValue op, sound_toValues ops⟩

end

theorem readList_trees {c inner : Context} (entered : c.enter = .ok inner) (items : List Value) :
    (Value.array items).tree.readList c (Tree.anySize read) =
      Tree.readItems inner (Tree.anySize read) (Value.trees items)
        fun _ inside => @Tree.item_small _ none _ inside := by
  simp only [Value.tree, Tree.readList, entered, failOn, bind, Except.bind]
  split
  next fails => exact fails.symm
  next reads => exact reads.symm

theorem readItems_cons {c : Context} {n : Nat} {t : Tree} {rest : List Tree}
    (small : ∀ u ∈ t :: rest, sizeOf u < n) :
    Tree.readItems c (Tree.anySize read) (t :: rest) small =
      (read c t).bind fun first =>
        (Tree.readItems c (Tree.anySize read) rest fun u inside => small u (List.mem_cons_of_mem _ inside)).map
          (first :: ·) := by
  simp only [Tree.readItems, Tree.anySize, bind, Except.bind, pure, Except.pure, Except.map]

mutual

/-- An op with finite numbers is read back from its value. -/
theorem read_toValue {c : Context} : (op : Op) → c.Allows (2 * op.depth) → op.Finite →
    read c op.toValue.tree = .ok op
  | leaf block action, allows, finite => by
    obtain ⟨inner, entered, -⟩ := allows.enter
    obtain ⟨seen, reads, full⟩ := readMembers_leaf block action
      (fun _ inside => @Tree.member_small _ none _ inside) finite
    rw [read_leaf, entered, reads]
    simp only [Except.bind, full]
  | loop block count body, allows, finite => by
    have room : c.Allows (2 * depths body + 2) := by
      rw [depth, Nat.mul_add, Nat.add_comm] at allows
      exact allows
    obtain ⟨inner, entered, below, -⟩ := Context.Allows.enter room
    have whole := Value.readValue_tree (.array (toValues body))
      (below.mono (Nat.succ_le_succ (nestings_toValues body)))
    have parts := readItems_toValues body (c := .kept) nofun finite
      fun _ inside => @Tree.item_small _ none _ inside
    rw [read_loop, entered, Except.bind, whole, Except.bind, readList_trees rfl, parts]
    rfl

theorem readItems_toValues {c : Context} {n : Nat} : (ops : List Op) → c.Allows (2 * depths ops) →
    AllFinite ops → (small : ∀ t ∈ Value.trees (toValues ops), sizeOf t < n) →
      Tree.readItems c (Tree.anySize read) (Value.trees (toValues ops)) small = .ok ops
  | [], _, _, _ => rfl
  | op :: ops, allows, finite, small => by
    have first := read_toValue op (allows.mono (Nat.mul_le_mul_left 2 (Nat.le_max_left ..))) finite.1
    have others := readItems_toValues ops (allows.mono (Nat.mul_le_mul_left 2 (Nat.le_max_right ..))) finite.2
      fun t inside => small t (List.mem_cons_of_mem _ inside)
    refine (readItems_cons small).trans ?_
    rw [first, Except.bind, others]
    rfl

end

mutual

/-- An op with a number that is not finite is not read. -/
theorem read_infinite (c : Context) : (op : Op) → ¬ op.Finite →
    ∃ problem, read c op.toValue.tree = .error problem
  | leaf block action, infinite => by
    have fails := readMembers_infinite block action (fun _ inside => @Tree.member_small _ none _ inside)
      infinite
    rw [read_leaf, fails]
    cases c.enter <;> exact ⟨_, rfl⟩
  | loop block count body, infinite => by
    obtain ⟨problem, fails⟩ := readItems_infinite .kept body infinite
      fun _ inside => @Tree.item_small _ none _ inside
    rw [read_loop, readList_trees rfl, fails]
    cases c.enter with
    | error early => exact ⟨early, rfl⟩
    | ok inner =>
      rw [Except.bind]
      cases (Value.array (toValues body)).tree.readValue inner <;> exact ⟨_, rfl⟩

theorem readItems_infinite (c : Context) {n : Nat} : (ops : List Op) → ¬ AllFinite ops →
    (small : ∀ t ∈ Value.trees (toValues ops), sizeOf t < n) →
      ∃ problem, Tree.readItems c (Tree.anySize read) (Value.trees (toValues ops)) small = .error problem
  | [], infinite, _ => absurd trivial infinite
  | op :: ops, infinite, small => by
    simp only [toValues, Value.trees, readItems_cons]
    by_cases finite : op.Finite
    · obtain ⟨problem, fails⟩ := readItems_infinite c ops (fun others => infinite ⟨finite, others⟩)
        fun t inside => small t (List.mem_cons_of_mem _ inside)
      rw [fails]
      cases read c op.toValue.tree <;> exact ⟨_, rfl⟩
    · obtain ⟨problem, fails⟩ := read_infinite c op finite
      exact ⟨problem, by rw [fails]; rfl⟩

end

end Op

end BlockPlay

import BlockPlay.Proofs.Graph.Reading
import BlockPlay.Proofs.Json.Shape

/-!
The documents that hold a workspace: a list of well-formed blocks, in at most two wrappers. A wrapper is an object
with the key of the blocks, which may have any other members, but in a text must not have that key twice.
-/
namespace BlockPlay.Workspace

open Json (Value Tree Context Problem Place RecordOf)
open Json.Tree (Accepts Slot)

/-- What a value in a workspace may have to be. -/
inductive Shape where
  | text
  | values
  | plugs
  | block
  | connection
  | optional (shape : Shape)

def blockPlaces : List (Place Shape) :=
  [⟨"type", true, .text⟩, ⟨"id", false, .text⟩, ⟨"fields", false, .values⟩, ⟨"inputs", false, .plugs⟩,
    ⟨"next", false, .optional .connection⟩]

def connectionPlaces : List (Place Shape) :=
  [⟨"block", false, .optional .block⟩, ⟨"shadow", false, .optional .block⟩]

/-- The value is well formed as what it has to be. -/
inductive Formed : Shape → Value → Prop where
  | text (s : String) : Formed .text (.string s)
  | values (members : List (String × Value)) : Formed .values (.object members)
  | plugs {members : List (String × Value)} (each : ∀ m ∈ members, Formed .connection m.2) :
      Formed .plugs (.object members)
  | block {v : Value} (places : RecordOf blockPlaces Formed v) : Formed .block v
  | connection {v : Value} (places : RecordOf connectionPlaces Formed v) : Formed .connection v
  | absent (shape : Shape) : Formed (.optional shape) .null
  | present {shape : Shape} {v : Value} (fits : Formed shape v) : Formed (.optional shape) v

section Formed

variable {n : Nat}

theorem accepts_text : Accepts n (fun _ => Tree.readString) (Formed .text) := by
  refine Tree.accepts_readString.congr fun v => ⟨?_, ?_⟩
  · rintro ⟨s, rfl⟩
    exact .text s
  · rintro ⟨⟩
    exact ⟨_, rfl⟩

theorem accepts_readFields : Accepts n readFields (Formed .values) := by
  refine (Tree.accepts_readValue.readMap.mono (Nat.le_succ n)).congr fun v => ⟨?_, ?_⟩
  · rintro ⟨members, rfl, -⟩
    exact .values members
  · rintro ⟨⟩
    exact ⟨_, rfl, fun _ _ => trivial⟩

theorem accepts_readInputs (connection : Accepts n Connection.read (Formed .connection)) :
    Accepts n readInputs (Formed .plugs) := by
  refine (connection.readMap.mono (Nat.le_succ n)).congr fun v => ⟨?_, ?_⟩
  · rintro ⟨members, rfl, each⟩
    exact .plugs each
  · rintro (_ | _ | each)
    exact ⟨_, rfl, each⟩

theorem accepts_optional {α : Type} {read : Context → Tree → Except Problem α} {shape : Shape}
    (accepts : Accepts n read (Formed shape)) : Accepts n (Tree.readNullable read) (Formed (.optional shape)) := by
  refine accepts.readNullable.congr fun v => ⟨?_, ?_⟩
  · rintro (rfl | fits)
    · exact .absent shape
    · exact .present fits
  · rintro (_ | _ | _ | _ | _ | _ | fits)
    · exact .inl rfl
    · exact .inr fits

theorem Block.distinct_slots : Block.slots.Pairwise fun s r => s.name ≠ r.name := by
  simp [Block.slots]

theorem Connection.distinct_slots : Connection.slots.Pairwise fun s r => s.name ≠ r.name := by
  simp [Connection.slots]

/-- The readers of blocks and of connections, which call each other on smaller trees, accept what is well formed. -/
theorem accepts_read (n : Nat) :
    Accepts n Block.read (Formed .block) ∧ Accepts n Connection.read (Formed .connection) := by
  -- The parts of a record are smaller than the record, so the induction is on the bound on the size.
  induction n with
  | zero => exact ⟨Tree.accepts_zero, Tree.accepts_zero⟩
  | succ n ih =>
    obtain ⟨block, connection⟩ := ih
    constructor
    · have serves : List.Forall₂ (Slot.Serves n Formed) Block.slots blockPlaces :=
        .cons ⟨rfl, rfl, accepts_text⟩ (.cons ⟨rfl, rfl, accepts_text⟩ (.cons ⟨rfl, rfl, accepts_readFields⟩
          (.cons ⟨rfl, rfl, accepts_readInputs connection⟩ (.cons ⟨rfl, rfl, accepts_optional connection⟩ .nil))))
      rw [funext₂ Block.read_eq]
      refine (Tree.accepts_readRecord _ _ Block.distinct_slots serves).congr fun v => ⟨.block, ?_⟩
      rintro (_ | _ | _ | places)
      exact places
    · have serves : List.Forall₂ (Slot.Serves n Formed) Connection.slots connectionPlaces :=
        .cons ⟨rfl, rfl, accepts_optional block⟩ (.cons ⟨rfl, rfl, accepts_optional block⟩ .nil)
      rw [funext₂ Connection.read_eq]
      refine (Tree.accepts_readRecord _ _ Connection.distinct_slots serves).congr fun v => ⟨.connection, ?_⟩
      rintro (_ | _ | _ | _ | places)
      exact places

theorem exists_read_iff {c : Context} (deep : c.Deep) {v : Value} (proper : v.Proper) :
    (∃ b, Block.read c v.tree = .ok b) ↔ Formed .block v :=
  (accepts_read _).1 deep proper (Nat.lt_succ_self _)

end Formed

/-- The items of a list that stands in so many wrappers. -/
inductive Wrapped : Nat → Value → List Value → Prop where
  | list (items : List Value) : Wrapped 0 (.array items) items
  | wrapper {n : Nat} {members : List (String × Value)} {v : Value} {items : List Value}
      (blocks : ("blocks", v) ∈ members) (inside : Wrapped n v items) : Wrapped (n + 1) (.object members) items

def scalar? : Value → Option Json.Found
  | .null => some .null
  | .bool b => some (.bool b)
  | .number (.integer n) => some (.integer n)
  | .number (.float x) => some (.float x)
  | .string s => some (.string s)
  | .array _ | .object _ => none

/-- Why there is no list in a value in which so many wrappers are allowed. -/
inductive Listless : Nat → Value → Problem → Prop where
  | surplus (members : List (String × Value)) : Listless 0 (.object members) (.wrongType .map (wanted 0))
  | bare (n : Nat) {members : List (String × Value)} (without : "blocks" ∉ members.map Prod.fst) :
      Listless (n + 1) (.object members) (.missingField "blocks")
  | wrapper {n : Nat} {members : List (String × Value)} {v : Value} {p : Problem}
      (blocks : ("blocks", v) ∈ members) (inside : Listless n v p) : Listless (n + 1) (.object members) p
  | scalar (n : Nat) {v : Value} {f : Json.Found} (plain : scalar? v = some f) :
      Listless n v (.wrongType f (wanted n))

theorem scalar_or_container (v : Value) :
    (∃ f, scalar? v = some f) ∨ (∃ items, v = .array items) ∨ ∃ members, v = .object members := by
  cases v with
  | array items => exact .inr (.inl ⟨items, rfl⟩)
  | object members => exact .inr (.inr ⟨members, rfl⟩)
  | number n => cases n <;> exact .inl ⟨_, rfl⟩
  | _ => exact .inl ⟨_, rfl⟩

theorem wrapped_or_listless (n : Nat) (v : Value) :
    (∃ k ≤ n, ∃ items, Wrapped k v items) ∨ ∃ p, Listless n v p := by
  induction n generalizing v with
  | zero =>
    rcases scalar_or_container v with ⟨f, plain⟩ | ⟨items, rfl⟩ | ⟨members, rfl⟩
    · exact .inr ⟨_, .scalar 0 plain⟩
    · exact .inl ⟨0, Nat.le_refl 0, items, .list items⟩
    · exact .inr ⟨_, .surplus members⟩
  | succ n ih =>
    rcases scalar_or_container v with ⟨f, plain⟩ | ⟨items, rfl⟩ | ⟨members, rfl⟩
    · exact .inr ⟨_, .scalar (n + 1) plain⟩
    · exact .inl ⟨0, Nat.zero_le _, items, .list items⟩
    · by_cases given : "blocks" ∈ members.map Prod.fst
      · obtain ⟨⟨_, v⟩, member, rfl⟩ := List.mem_map.mp given
        rcases ih v with ⟨k, few, items, inside⟩ | ⟨p, inside⟩
        · exact .inl ⟨k + 1, Nat.succ_le_succ few, items, .wrapper member inside⟩
        · exact .inr ⟨p, .wrapper member inside⟩
      · exact .inr ⟨_, .bare n given⟩

section Wrappers

variable {c : Context} {inner : Context → Tree → Except Problem (List Block)} {members : List (String × Value)}
  {v : Value}

theorem readWrapped_skip (blocks : Option (List Block)) {m : String × Value} (other : m.1 ≠ "blocks")
    (proper : m.2.Proper) : readWrapped c inner blocks (Value.treeMembers (m :: members)) =
      readWrapped c inner blocks (Value.treeMembers members) := by
  have skips : m.2.tree.skip = .ok () := Tree.failOn_eq_ok_iff.mpr proper.skips
  rw [Value.treeMembers, readWrapped, Json.Literal.read, skips]
  exact if_neg (by simpa using other)

theorem readWrapped_without (blocks : Option (List Block)) (without : "blocks" ∉ members.map Prod.fst)
    (proper : ∀ m ∈ members, m.2.Proper) :
    readWrapped c inner blocks (Value.treeMembers members) = .ok blocks := by
  induction members with
  | nil => rfl
  | cons m members ih =>
    obtain ⟨other, others⟩ := not_or.mp (List.mem_cons.not.mp without)
    obtain ⟨first, later⟩ := List.forall_mem_cons.mp proper
    exact (readWrapped_skip blocks (Ne.symm other) first).trans (ih others later)

theorem readWrapped_of_mem (apart : Entries.Apart members) (proper : ∀ m ∈ members, m.2.Proper)
    (blocks : ("blocks", v) ∈ members) :
    readWrapped c inner none (Value.treeMembers members) = (inner c v.tree).map some := by
  induction members with
  | nil => cases blocks
  | cons m members ih =>
    obtain ⟨unlike, apart⟩ := List.pairwise_cons.mp apart
    obtain ⟨first, later⟩ := List.forall_mem_cons.mp proper
    rcases List.mem_cons.mp blocks with rfl | member
    · have without : "blocks" ∉ members.map Prod.fst := by
        intro given
        obtain ⟨m, inside, same⟩ := List.mem_map.mp given
        exact unlike m inside same.symm
      -- The blocks are read here, and the members behind them are passed over.
      change (inner c v.tree).bind (fun found => readWrapped c inner (some found) _) = _
      simp only [readWrapped_without _ without later]
      cases inner c v.tree <;> rfl
    · exact (readWrapped_skip none (unlike _ member) first).trans (ih apart later member)

theorem readBlocks_bare (deep : c.Deep) (proper : (Value.object members).Proper)
    (without : "blocks" ∉ members.map Prod.fst) (n : Nat) :
    readBlocks (n + 1) c (Value.object members).tree = .error (.missingField "blocks") := by
  rw [Value.tree, readBlocks, deep.enter]
  change (readWrapped c (readBlocks n) none _).bind _ = _
  rw [readWrapped_without none without proper.members.2]
  rfl

theorem readBlocks_of_mem (deep : c.Deep) (proper : (Value.object members).Proper)
    (blocks : ("blocks", v) ∈ members) (n : Nat) :
    readBlocks (n + 1) c (Value.object members).tree = readBlocks n c v.tree := by
  obtain ⟨apart, each⟩ := proper.members
  rw [Value.tree, readBlocks, deep.enter]
  change (readWrapped c (readBlocks n) none _).bind _ = _
  rw [readWrapped_of_mem apart each blocks]
  cases readBlocks n c v.tree <;> rfl

theorem readBlocks_scalar (n : Nat) {f : Json.Found} (plain : scalar? v = some f) :
    readBlocks n c v.tree = .error (.wrongType f (wanted n)) := by
  cases v with
  | array items | object members => cases plain
  | number k => cases k <;> cases plain <;> cases n <;> rfl
  | _ =>
    cases plain
    cases n <;> rfl

/-- In wrappers there are the same blocks as in the list by itself. -/
theorem Wrapped.readBlocks_eq {k n : Nat} {items : List Value} (wrapped : Wrapped k v items) (few : k ≤ n)
    (deep : c.Deep) (proper : v.Proper) :
    readBlocks n c v.tree = (Value.array items).tree.readList c (Tree.anySize Block.read) := by
  induction wrapped generalizing n with
  | list items => exact readBlocks_array c n _ none
  | wrapper blocks _ ih =>
    obtain ⟨n, rfl⟩ := Nat.exists_eq_add_of_le' (Nat.le_trans (Nat.le_add_left 1 _) few)
    rw [readBlocks_of_mem deep proper blocks]
    exact ih (Nat.le_of_succ_le_succ few) (proper.members.2 _ blocks)

theorem Wrapped.proper {k : Nat} {items : List Value} (wrapped : Wrapped k v items) (proper : v.Proper) :
    ∀ u ∈ items, u.Proper := by
  induction wrapped with
  | list items => exact proper.items
  | wrapper blocks _ ih => exact ih (proper.members.2 _ blocks)

theorem Listless.readBlocks_eq {n : Nat} {p : Problem} (listless : Listless n v p) (deep : c.Deep)
    (proper : v.Proper) : readBlocks n c v.tree = .error p := by
  induction listless with
  | surplus members =>
    rw [Value.tree, readBlocks, deep.enter]
    rfl
  | bare n without => exact readBlocks_bare deep proper without n
  | wrapper blocks _ ih => exact (readBlocks_of_mem deep proper blocks _).trans (ih (proper.members.2 _ blocks))
  | scalar n plain => exact readBlocks_scalar n plain

end Wrappers

/-- What is wrong with the first item that is not a well-formed block. -/
inductive Spoils : List Value → Problem → Prop where
  | here {u : Value} {p : Problem} (items : List Value) (wrong : Block.read .value u.tree = .error p) :
      Spoils (u :: items) p
  | later {u : Value} {p : Problem} {items : List Value} (formed : Formed .block u) (spoils : Spoils items p) :
      Spoils (u :: items) p

section Lists

variable {items : List Value}

theorem readList_array_iff {c : Context} (deep : c.Deep) {blocks : List Block} :
    (Value.array items).tree.readList c (Tree.anySize Block.read) = .ok blocks ↔
      List.Forall₂ (fun u b => Block.read c u.tree = .ok b) items blocks := by
  rw [Tree.readList_eq_ok_iff deep, Value.tree, Value.trees_eq]
  constructor
  · rintro ⟨_, ⟨⟩, all⟩
    exact List.forall₂_map_left_iff.mp all
  · intro all
    exact ⟨_, rfl, List.forall₂_map_left_iff.mpr all⟩

theorem exists_readList_iff {c : Context} (deep : c.Deep) (proper : ∀ u ∈ items, u.Proper) :
    (∃ blocks, (Value.array items).tree.readList c (Tree.anySize Block.read) = .ok blocks) ↔
      ∀ u ∈ items, Formed .block u := by
  simp only [readList_array_iff deep, Json.exists_forall₂_iff]
  exact forall₂_congr fun u inside => exists_read_iff deep (proper u inside)

theorem readItems_eq_error_iff {n : Nat} {small : ∀ t ∈ Value.trees items, sizeOf t < n} {p : Problem}
    (proper : ∀ u ∈ items, u.Proper) :
    Tree.readItems .value (Tree.anySize Block.read) (Value.trees items) small = .error p ↔ Spoils items p := by
  induction items with
  | nil => exact iff_of_false nofun nofun
  | cons u items ih =>
    obtain ⟨first, later⟩ := List.forall_mem_cons.mp proper
    have formed := exists_read_iff Context.deep_value first
    simp only [Value.trees, Tree.readItems, Tree.anySize, Json.bind_eq_error_iff, pure, Except.pure, reduceCtorEq,
      and_false, exists_false, or_false, exists_and_right, formed]
    constructor
    · rintro (wrong | ⟨here, others⟩)
      · exact .here items wrong
      · exact .later here ((ih later).mp others)
    · rintro (⟨-, wrong⟩ | ⟨here, others⟩)
      · exact .inl wrong
      · exact .inr ⟨here, (ih later).mpr others⟩

theorem readList_array_eq_error_iff {p : Problem} (proper : ∀ u ∈ items, u.Proper) :
    (Value.array items).tree.readList .value (Tree.anySize Block.read) = .error p ↔ Spoils items p := by
  simp only [Value.tree, Tree.readList, Context.deep_value.enter, Json.bind_eq_error_iff, Json.failOn, pure,
    Except.pure, reduceCtorEq, and_false, exists_false, or_false, false_or, Except.ok.injEq, exists_eq_left']
  exact readItems_eq_error_iff proper

end Lists

/-- A wrapper, where so many are allowed, in which the key of the blocks stands twice. -/
inductive Repeats : Nat → Tree → Prop where
  | here {n : Nat} {members : List (Json.Literal × Tree)} {flaw : Option Json.Flaw} {m m' : Json.Literal × Tree}
      (twice : [m, m'].Sublist members) (first : m.1.spelled = .ok "blocks")
      (again : m'.1.spelled = .ok "blocks") : Repeats (n + 1) (.object members flaw)
  | inside {n : Nat} {members : List (Json.Literal × Tree)} {flaw : Option Json.Flaw} {m : Json.Literal × Tree}
      (member : m ∈ members) (blocks : m.1.spelled = .ok "blocks") (repeats : Repeats n m.2) :
      Repeats (n + 1) (.object members flaw)

section Repeats

variable {c : Context} {inner : Context → Tree → Except Problem (List Block)} {members : List (Json.Literal × Tree)}
  {found out : Option (List Block)}

theorem readWrapped_cons_iff {m : Json.Literal × Tree} :
    readWrapped c inner found (m :: members) = .ok out ↔ ∃ name, m.1.spelled = .ok name ∧
      if name = "blocks" then
        found = none ∧ ∃ blocks, inner c m.2 = .ok blocks ∧ readWrapped c inner (some blocks) members = .ok out
      else m.2.flaw? = none ∧ readWrapped c inner found members = .ok out := by
  simp only [readWrapped, Json.bind_eq_ok_iff, Json.Literal.read_eq_ok_iff]
  refine exists_congr fun name => and_congr_right fun _ => ?_
  by_cases known : name = "blocks"
  · subst known
    cases found <;> simp [Json.bind_eq_ok_iff]
  · simp [known, Json.bind_eq_ok_iff, Tree.skip, Tree.failOn_eq_ok_iff]

theorem readWrapped_member (reads : readWrapped c inner found members = .ok out) {m : Json.Literal × Tree}
    (member : m ∈ members) (named : m.1.spelled = .ok "blocks") :
    found = none ∧ ∃ blocks, inner c m.2 = .ok blocks := by
  induction members generalizing found with
  | nil => cases member
  | cons m' members ih =>
    obtain ⟨name, spelled, rest⟩ := readWrapped_cons_iff.mp reads
    rcases List.mem_cons.mp member with rfl | later
    · cases named.symm.trans spelled
      obtain ⟨new, blocks, first, -⟩ := rest
      exact ⟨new, blocks, first⟩
    · split at rest
      next =>
        obtain ⟨-, blocks, -, others⟩ := rest
        cases (ih others later).1
      next => exact ih rest.2 later

theorem readWrapped_once (reads : readWrapped c inner found members = .ok out) {m m' : Json.Literal × Tree}
    (twice : [m, m'].Sublist members) (first : m.1.spelled = .ok "blocks") : m'.1.spelled ≠ .ok "blocks" := by
  induction members generalizing found with
  | nil => cases twice
  | cons m'' members ih =>
    obtain ⟨name, spelled, rest⟩ := readWrapped_cons_iff.mp reads
    rcases twice with _ | ⟨_, later⟩ | ⟨_, after⟩
    · split at rest
      next =>
        obtain ⟨-, blocks, -, others⟩ := rest
        exact ih others later
      next => exact ih rest.2 later
    · cases first.symm.trans spelled
      obtain ⟨-, blocks, -, others⟩ := rest
      intro again
      cases (readWrapped_member others (List.singleton_sublist.mp after) again).1

theorem exists_readWrapped {n : Nat} {flaw : Option Json.Flaw} {blocks : List Block}
    (reads : readBlocks (n + 1) c (.object members flaw) = .ok blocks) :
    ∃ inside out, readWrapped inside (readBlocks n) none members = .ok out := by
  rw [readBlocks] at reads
  obtain ⟨inside, -, reads⟩ := Json.bind_eq_ok_iff.mp reads
  obtain ⟨out, found, -⟩ := Json.bind_eq_ok_iff.mp reads
  exact ⟨inside, out, found⟩

theorem Repeats.readBlocks_ne_ok {n : Nat} {t : Tree} (repeats : Repeats n t) (c : Context) (blocks : List Block) :
    readBlocks n c t ≠ .ok blocks := by
  intro reads
  induction repeats generalizing c blocks with
  | here twice first again =>
    obtain ⟨inside, out, found⟩ := exists_readWrapped reads
    exact readWrapped_once found twice first again
  | inside member named _ ih =>
    obtain ⟨inside, out, found⟩ := exists_readWrapped reads
    obtain ⟨-, blocks, reads⟩ := readWrapped_member found member named
    exact ih inside blocks reads

end Repeats

section Documents

variable {v : Value} {items : List Value}

theorem exists_readBlocks_iff (proper : v.Proper) (n : Nat) :
    (∃ blocks, readBlocks n .value v.tree = .ok blocks) ↔
      ∃ k ≤ n, ∃ items, Wrapped k v items ∧ ∀ u ∈ items, Formed .block u := by
  constructor
  · rintro ⟨blocks, reads⟩
    rcases wrapped_or_listless n v with ⟨k, few, items, wrapped⟩ | ⟨p, listless⟩
    · rw [wrapped.readBlocks_eq few Context.deep_value proper] at reads
      have formed := (exists_readList_iff Context.deep_value (wrapped.proper proper)).mp ⟨blocks, reads⟩
      exact ⟨k, few, items, wrapped, formed⟩
    · cases (listless.readBlocks_eq Context.deep_value proper).symm.trans reads
  · rintro ⟨k, few, items, wrapped, formed⟩
    rw [wrapped.readBlocks_eq few Context.deep_value proper]
    exact (exists_readList_iff Context.deep_value (wrapped.proper proper)).mpr formed

theorem readBlocks_eq_error_iff (proper : v.Proper) (n : Nat) (p : Problem) :
    readBlocks n .value v.tree = .error p ↔
      Listless n v p ∨ ∃ k ≤ n, ∃ items, Wrapped k v items ∧ Spoils items p := by
  constructor
  · intro reads
    rcases wrapped_or_listless n v with ⟨k, few, items, wrapped⟩ | ⟨q, listless⟩
    · rw [wrapped.readBlocks_eq few Context.deep_value proper] at reads
      exact .inr ⟨k, few, items, wrapped, (readList_array_eq_error_iff (wrapped.proper proper)).mp reads⟩
    · cases (listless.readBlocks_eq Context.deep_value proper).symm.trans reads
      exact .inl listless
  · rintro (listless | ⟨k, few, items, wrapped, spoils⟩)
    · exact listless.readBlocks_eq Context.deep_value proper
    · rw [wrapped.readBlocks_eq few Context.deep_value proper]
      exact (readList_array_eq_error_iff (wrapped.proper proper)).mpr spoils

theorem ofValue_eq_ok_iff {fresh : Nat → BlockId} {w : Workspace} :
    ofValue fresh v = .ok w ↔
      ∃ blocks, readBlocks maxWrappers .value v.tree = .ok blocks ∧ ofBlocks fresh blocks = w :=
  Json.map_eq_ok_iff

theorem Wrapped.ofValue_eq {k : Nat} (wrapped : Wrapped k v items) (few : k ≤ maxWrappers) (proper : v.Proper)
    (fresh : Nat → BlockId) : ofValue fresh v = ofValue fresh (.array items) := by
  have list := readBlocks_array .value maxWrappers (Value.trees items) none
  rw [ofValue, wrapped.readBlocks_eq few Context.deep_value proper]
  exact congrArg (Except.map _) list.symm

theorem Repeats.ofBytes_fails {bytes : List UInt8} (repeats : Repeats maxWrappers (Json.Document.ofBytes bytes).tree)
    (fresh : Nat → BlockId) : ∃ p, ofBytes fresh bytes = .error p := by
  cases found : ofBytes fresh bytes with
  | error p => exact ⟨p, rfl⟩
  | ok w =>
    obtain ⟨blocks, read, -⟩ := Json.map_eq_ok_iff.mp found
    exact absurd (read_eq_ok_iff.mp read).1 (repeats.readBlocks_ne_ok _ blocks)

/-- A value holds a workspace if it is a list of well-formed blocks in no, one or two wrappers; else it tells what is
wrong with it. The blocks are those of the list in their order, whichever wrappers are around it and whatever else
these hold. A text in which a wrapper has the key of the blocks twice holds no workspace. -/
theorem ofValue_shapes (proper : v.Proper) (fresh : Nat → BlockId) :
    ((∃ w, ofValue fresh v = .ok w) ↔
      ∃ n ≤ 2, ∃ items, Wrapped n v items ∧ ∀ u ∈ items, Formed .block u) ∧
    (∀ p, ofValue fresh v = .error p ↔
      Listless 2 v p ∨ ∃ n ≤ 2, ∃ items, Wrapped n v items ∧ Spoils items p) ∧
    (∀ n ≤ 2, ∀ items, Wrapped n v items → ofValue fresh v = ofValue fresh (.array items) ∧
      ∀ w, ofValue fresh v = .ok w → ∃ blocks, w = ofBlocks fresh blocks ∧
        List.Forall₂ (fun u b => Block.read .value u.tree = .ok b) items blocks ∧
          ∀ fresh', ∃ w', ofValue fresh' (.array items) = .ok w' ∧
            List.Forall₂ (Block.Alike (SameName fresh fresh')) w.top w'.top) ∧
    ∀ bytes, Repeats 2 (Json.Document.ofBytes bytes).tree → ∃ p, ofBytes fresh bytes = .error p := by
  refine ⟨?_, fun p => ?_, fun n few items wrapped => ⟨wrapped.ofValue_eq few proper fresh, fun w holds => ?_⟩,
    fun bytes repeats => repeats.ofBytes_fails fresh⟩
  · refine Iff.trans ?_ (exists_readBlocks_iff proper maxWrappers)
    rw [ofValue]
    cases readBlocks maxWrappers .value v.tree <;> simp [Except.map]
  · refine Iff.trans ?_ (readBlocks_eq_error_iff proper maxWrappers p)
    rw [ofValue]
    cases readBlocks maxWrappers .value v.tree <;> simp [Except.map]
  · obtain ⟨blocks, reads, rfl⟩ := ofValue_eq_ok_iff.mp holds
    have list := (wrapped.readBlocks_eq few Context.deep_value proper).symm.trans reads
    have each := (readList_array_iff Context.deep_value).mp list
    refine ⟨blocks, rfl, each, fun fresh' => ⟨ofBlocks fresh' blocks, ?_, fillBlocks_alike fresh fresh' blocks 0⟩⟩
    rw [← wrapped.ofValue_eq few proper]
    exact ofValue_eq_ok_iff.mpr ⟨blocks, reads, rfl⟩

/-- A wrapper inside another one, with the key of the blocks twice and a member between. -/
def twofold : Value := .object [("note", .null), ("blocks", .object [("blocks", .array []), ("note", .bool true),
  ("blocks", .array [])])]

theorem formed_sketch : ∃ items, Wrapped 2 sketch items ∧ ∀ u ∈ items, Formed .block u := by
  refine ⟨_, .wrapper (List.mem_cons_of_mem _ List.mem_cons_self)
    (.wrapper (List.mem_cons_of_mem _ List.mem_cons_self) (.list _)), ?_⟩
  have shadow : Formed .block (.array [.string "turn"]) := by
    exact .block (.array (.item (.text _) (.without rfl (.without rfl (.without rfl (.without rfl .all))))))
  have below : Formed .connection (.object [("shadow", .array [.string "turn"])]) := by
    refine .connection (.object (by simp [connectionPlaces]) ?_)
    simpa [connectionPlaces] using Formed.present shadow
  refine List.forall_mem_cons.mpr ⟨?_, List.forall_mem_singleton.mpr ?_⟩
  · refine .block (.object (by simp [blockPlaces]) ?_)
    simpa [blockPlaces] using ⟨Formed.text "go", Formed.plugs (List.forall_mem_nil _), Formed.present below⟩
  · exact .block (.array (.item (.text _) (.item (.text _) (.item (.values _) (.without rfl (.without rfl .all))))))

theorem ofValue_shapes_sketch : sketch.Proper ∧ ∀ fresh, (∃ w, ofValue fresh sketch = .ok w) ∧
    ∃ p, ofBytes fresh (Text.bytes twofold.render) = .error p := by
  have proper : sketch.Proper := Value.proper_iff.mpr
    ⟨by simp [sketch, Value.Sound, Value.AllSound, Value.MembersSound],
      by simp [sketch, Value.tree, Value.trees, Value.treeMembers, Tree.Distinct, Tree.AllDistinct,
        Tree.MembersDistinct]⟩
  have sound : twofold.Sound := by simp [twofold, Value.Sound, Value.AllSound, Value.MembersSound]
  have document := (Value.scanned_render sound).document (List.forall_mem_nil _)
  rw [List.append_nil] at document
  refine ⟨proper, fun fresh => ?_⟩
  obtain ⟨holds, -, -, fails⟩ := ofValue_shapes proper fresh
  obtain ⟨items, wrapped, formed⟩ := formed_sketch
  refine ⟨holds.mpr ⟨2, Nat.le_refl 2, items, wrapped, formed⟩, fails _ ?_⟩
  rw [document]
  refine .inside (List.mem_cons_of_mem _ List.mem_cons_self) rfl ?_
  exact .here (.cons_cons _ (.cons _ (.cons_cons _ .slnil))) rfl rfl

end Documents

end BlockPlay.Workspace

import BlockPlay.Graph.Arena
import BlockPlay.Proofs.Entries
import Mathlib.Data.Finset.Basic
import Mathlib.Data.Fintype.EquivFin

/-!
Arenas built call by call. A call adds a block behind the others, or writes into parts of blocks. A write counts if
all places that it names are in the arena, and what counts last stays; so every link leads to a block, and a block
keeps its place, its id and its kind. A place is only a number: whether one that another arena handed out is taken
for a place of this arena depends on the two sizes alone.
-/
namespace BlockPlay.Arena

/-- Something put into one part of one block. -/
inductive Write where
  | next (source target : BlockRef)
  | input (source : BlockRef) (name : String) (target : BlockRef)
  | field (source : BlockRef) (name : String) (value : FieldValue)

inductive Call where
  | block (id : BlockId) (kind : String)
  | top (id : BlockId) (kind : String)
  | write (w : Write)
  | chain (refs : List BlockRef)

inductive Part where
  | next
  | input (name : String)
  | field (name : String)
  deriving DecidableEq

inductive Content where
  | link (target : BlockRef)
  | value (v : FieldValue)

namespace Write

def run (a : Arena) : Write → Arena
  | next source target => a.setNext source target
  | input source name target => a.setInput source name target
  | field source name value => a.setField source name value

def place : Write → BlockRef
  | next source _ | input source _ _ | field source _ _ => source

def part : Write → Part
  | next .. => .next
  | input _ name _ => .input name
  | field _ name _ => .field name

def content : Write → Content
  | next _ target | input _ _ target => .link target
  | field _ _ value => .value value

def places : Write → List BlockRef
  | next source target | input source _ target => [source, target]
  | field source _ _ => [source]

/-- All places that the write names are in the arena. -/
def fits (a : Arena) (w : Write) : Bool := w.places.all a.contains

def alter : Write → Block → Block
  | next _ target, b => { b with next := some target }
  | input _ name target, b => { b with inputs := Entries.put name target b.inputs }
  | field _ name value, b => { b with fields := Entries.put name value b.fields }

end Write

def links : List BlockRef → List Write
  | source :: target :: rest => .next source target :: links (target :: rest)
  | _ => []

namespace Call

def run (a : Arena) : Call → Arena
  | block id kind => (a.addBlock id kind).2
  | top id kind => (a.addTop id kind).2
  | write w => w.run a
  | chain refs => a.chain refs

def hands? (a : Arena) : Call → Option BlockRef
  | block id kind => some (a.addBlock id kind).1
  | top id kind => some (a.addTop id kind).1
  | write _ | chain _ => none

/-- The id and the kind of the block that a call adds. -/
def adds : Call → List (BlockId × String)
  | block id kind | top id kind => [(id, kind)]
  | write _ | chain _ => []

def entries (a : Arena) : Call → List BlockRef
  | top .. => [⟨a.size⟩]
  | block .. | write _ | chain _ => []

def writes : Call → List Write
  | block .. | top .. => []
  | write w => [w]
  | chain refs => links refs

end Call

def build (calls : List Call) : Arena := calls.foldl Call.run empty

/-- The ids and the kinds of the blocks, in the order of their places. -/
def labels (a : Arena) : List (BlockId × String) := a.blocks.toList.map fun b => (b.id, b.kind)

def Block.content? (b : Block) : Part → Option Content
  | .next => b.next.map .link
  | .input name => (Entries.get? name b.inputs).map .link
  | .field name => (Entries.get? name b.fields).map .value

/-- What stands in a part of the block at a place. -/
def content? (a : Arena) (r : BlockRef) (part : Part) : Option Content := (a.block? r).bind (·.content? part)

section Writing

variable {a : Arena} {r : BlockRef} {w : Write}

theorem contains_iff : a.contains r = true ↔ r.index < a.size := decide_eq_true_iff

theorem exists_block (inside : r.index < a.size) : ∃ b, a.block? r = some b :=
  ⟨a.blocks[r.index], Array.getElem?_eq_getElem inside⟩

theorem block?_modify (place : BlockRef) (f : Block → Block) :
    (a.modify place f).block? r = if place = r then (a.block? r).map f else a.block? r := by
  have same : place.index = r.index ↔ place = r := by
    obtain ⟨i⟩ := place
    obtain ⟨j⟩ := r
    exact BlockRef.mk.injEq i j ▸ Iff.rfl
  simp only [block?, modify, Array.getElem?_modify, same]

/-- A place outside the arena can be changed in any way. -/
theorem modify_outside (outside : a.contains r = false) (f : Block → Block) : a.modify r f = a := by
  have large : a.blocks.size ≤ r.index := Nat.le_of_not_lt (of_decide_eq_false outside)
  have same : a.blocks.modify r.index f = a.blocks := by
    refine Array.ext (Array.size_modify ..) fun i _ small => ?_
    rw [Array.getElem_modify, if_neg (by omega)]
  rw [modify, same]

/-- A write that fits changes the block that it names, and one that does not changes nothing. -/
theorem Write.run_eq (a : Arena) (w : Write) : w.run a = if w.fits a then a.modify w.place w.alter else a := by
  have missed (source target : BlockRef) (f : Block → Block) :
      (if a.contains target then a.modify source f else a) =
        if [source, target].all a.contains then a.modify source f else a := by
    cases known : a.contains source with
    | true => simp [known]
    | false => simp [known, modify_outside known]
  cases w with
  | next source target => exact missed source target _
  | input source name target => exact missed source target _
  | field source name value =>
    change a.modify source _ = if [source].all a.contains then _ else a
    cases known : a.contains source with
    | true =>
      simp only [List.all_cons, List.all_nil, known, Bool.and_self, if_true]
      rfl
    | false => simp [known, modify_outside known]

theorem Write.run_of_not_fits (misses : w.fits a = false) : w.run a = a := by
  rw [run_eq, misses, if_neg Bool.false_ne_true]

theorem Write.alter_label (w : Write) (b : Block) : ((w.alter b).id, (w.alter b).kind) = (b.id, b.kind) := by
  cases w <;> rfl

theorem Write.content?_alter (w : Write) (b : Block) (part : Part) :
    (w.alter b).content? part = if w.part = part then some w.content else b.content? part := by
  cases w with
  | next source target => cases part <;> simp [alter, Block.content?, Write.part, Write.content]
  | input source name target =>
    cases part <;> simp only [alter, Block.content?, Write.part, Write.content, Entries.get?_put, reduceCtorEq,
      if_false, Part.input.injEq]
    split <;> rfl
  | field source name value =>
    cases part <;> simp only [alter, Block.content?, Write.part, Write.content, Entries.get?_put, reduceCtorEq,
      if_false, Part.field.injEq]
    split <;> rfl

@[simp] theorem Write.size_run (a : Arena) (w : Write) : (w.run a).size = a.size := by
  rw [run_eq]
  split
  next => exact Array.size_modify ..
  next => rfl

@[simp] theorem Write.top_run (a : Arena) (w : Write) : (w.run a).top = a.top := by
  rw [run_eq]
  split <;> rfl

theorem labels_modify (place : BlockRef) {f : Block → Block} (kept : ∀ b, ((f b).id, (f b).kind) = (b.id, b.kind)) :
    (a.modify place f).labels = a.labels := by
  refine List.ext_getElem? fun i => ?_
  simp only [labels, modify, Array.toList_modify, List.getElem?_map, List.getElem?_modify]
  split
  next => simp [Option.map_map, Function.comp_def, kept]
  next => simp

@[simp] theorem Write.labels_run (a : Arena) (w : Write) : (w.run a).labels = a.labels := by
  rw [run_eq]
  split
  next => exact labels_modify w.place w.alter_label
  next => rfl

@[simp] theorem Write.fits_run (a : Arena) (v w : Write) : v.fits (w.run a) = v.fits a := by
  have same : (w.run a).contains = a.contains := funext fun r => by rw [contains, contains, size_run]
  rw [fits, fits, same]

/-- What a write puts into a part of a block. -/
def Write.puts? (a : Arena) (r : BlockRef) (part : Part) (w : Write) : Option Content :=
  if w.fits a ∧ w.place = r ∧ w.part = part then some w.content else none

theorem Write.content?_run (a : Arena) (w : Write) (r : BlockRef) (part : Part) :
    (w.run a).content? r part = (w.puts? a r part).or (a.content? r part) := by
  have whole (misses : w.puts? a r part = none) : (w.puts? a r part).or (a.content? r part) = a.content? r part := by
    rw [misses, Option.none_or]
  cases fit : w.fits a with
  | false => rw [run_of_not_fits fit, whole (by simp [puts?, fit])]
  | true =>
    have inside : a.contains w.place = true := by
      have all := List.all_eq_true.mp fit
      cases w <;> exact all _ List.mem_cons_self
    obtain ⟨b, found⟩ := exists_block (contains_iff.mp inside)
    rw [run_eq, if_pos fit]
    by_cases here : w.place = r
    · subst here
      simp only [content?, block?_modify, if_pos, found, Option.map_some, Option.bind_some, content?_alter, puts?,
        fit, true_and]
      split <;> rfl
    · rw [whole (by simp [puts?, here]), content?, block?_modify, if_neg here, content?]

end Writing

section Calling

variable {a : Arena} {writes : List Write}

theorem chain_eq (a : Arena) (refs : List BlockRef) : a.chain refs = (links refs).foldl Write.run a := by
  fun_induction chain a refs with
  | case1 a source target rest ih => exact ih
  | case2 refs a short =>
    rcases refs with _ | ⟨source, _ | ⟨target, rest⟩⟩
    · rfl
    · rfl
    · exact absurd rfl (short source target rest)

/-- What stands in a part after writes: what the last of them that counts has put there. -/
def put? (a : Arena) (writes : List Write) (r : BlockRef) (part : Part) : Option Content :=
  writes.reverse.findSome? (Write.puts? a r part)

theorem writes_keep {β : Type} {f : Arena → β} (kept : ∀ a w, f (Write.run a w) = f a) (a : Arena)
    (writes : List Write) : f (writes.foldl Write.run a) = f a := by
  induction writes generalizing a with
  | nil => rfl
  | cons w writes ih => rw [List.foldl_cons, ih, kept]

theorem content?_writes (a : Arena) (writes : List Write) (r : BlockRef) (part : Part) :
    (writes.foldl Write.run a).content? r part = (put? a writes r part).or (a.content? r part) := by
  induction writes generalizing a with
  | nil => rfl
  | cons w writes ih =>
    have same : Write.puts? (w.run a) r part = Write.puts? a r part := funext fun v => by
      rw [Write.puts?, Write.puts?, Write.fits_run]
    rw [List.foldl_cons, ih, Write.content?_run, ← Option.or_assoc]
    simp [put?, same, List.findSome?_append]

/-- Writes that do not fit can be left out. -/
theorem writes_filter {keep : Write → Bool} (counts : ∀ w, w.fits a = true → keep w = true) (writes : List Write) :
    (writes.filter keep).foldl Write.run a = writes.foldl Write.run a := by
  induction writes generalizing a with
  | nil => rfl
  | cons w writes ih =>
    have onward := ih (a := w.run a) fun v fit => counts v (v.fits_run a w ▸ fit)
    cases kept : keep w with
    | true => rw [List.filter_cons_of_pos kept, List.foldl_cons, List.foldl_cons, onward]
    | false =>
      have misses : w.fits a = false := Bool.eq_false_iff.mpr fun fit => by simp [counts w fit] at kept
      rw [List.filter_cons_of_neg (Bool.eq_false_iff.mp kept), List.foldl_cons, ← onward,
        Write.run_of_not_fits misses]

end Calling

section Closing

variable {a : Arena} {r : BlockRef} {b : Block}

/-- All links of a block lead to the first so many places. -/
structure Block.Within (n : Nat) (b : Block) : Prop where
  next : ∀ r ∈ b.next, r.index < n
  inputs : ∀ e ∈ b.inputs, e.2.index < n

/-- Every entry at the top and every link of a block leads to a block. -/
structure Closed (a : Arena) : Prop where
  top : ∀ r ∈ a.top, r.index < a.size
  blocks : ∀ b ∈ a.blocks, b.Within a.size

/-- The places that can be come to from the top through links to the next block and to blocks in inputs. -/
inductive Visited (a : Arena) : BlockRef → Prop where
  | top {r : BlockRef} (entry : r ∈ a.top) : Visited a r
  | next {r target : BlockRef} {b : Block} (visited : Visited a r) (found : a.block? r = some b)
      (link : b.next = some target) : Visited a target
  | input {r target : BlockRef} {b : Block} {name : String} (visited : Visited a r) (found : a.block? r = some b)
      (link : Entries.get? name b.inputs = some target) : Visited a target

/-- Where the graph of an arena looks a place up, there is a block. -/
structure Followed (a : Arena) : Prop where
  top : a.graph.top.map some = a.top.map a.block?
  visited : ∀ r, Visited a r → ∃ b, a.block? r = some b
  next : ∀ r b, a.block? r = some b → (a.graph.next? b).map some = b.next.map a.block?
  input : ∀ r b, a.block? r = some b → ∀ name,
    (a.graph.input? b name).map some = (Entries.get? name b.inputs).map a.block?

theorem mem_blocks (found : a.block? r = some b) : b ∈ a.blocks := Array.mem_of_getElem? found

theorem Closed.visited_lt (closed : a.Closed) (visited : Visited a r) : r.index < a.size := by
  cases visited with
  | top entry => exact closed.top r entry
  | next _ found link => exact (closed.blocks _ (mem_blocks found)).next r link
  | input _ found link => exact (closed.blocks _ (mem_blocks found)).inputs _ (Entries.mem_of_get? link)

theorem top_graph (inside : ∀ r ∈ a.top, r.index < a.size) : a.graph.top.map some = a.top.map a.block? := by
  change (a.top.filterMap a.block?).map some = _
  generalize a.top = top at inside
  induction top with
  | nil => rfl
  | cons r rest ih =>
    obtain ⟨first, later⟩ := List.forall_mem_cons.mp inside
    obtain ⟨b, found⟩ := exists_block first
    rw [List.filterMap_cons_some found, List.map_cons, List.map_cons, ih later, found]

theorem Closed.followed (closed : a.Closed) : a.Followed := by
  have link {target : Option BlockRef} (inside : ∀ r ∈ target, r.index < a.size) :
      (target.bind a.block?).map some = target.map a.block? := by
    cases target with
    | none => rfl
    | some r =>
      obtain ⟨b, found⟩ := exists_block (inside r rfl)
      rw [Option.bind_some, Option.map_some, found, Option.map_some]
  refine ⟨top_graph closed.top, fun r visited => exists_block (closed.visited_lt visited), ?_, ?_⟩
  · exact fun r b found => link (closed.blocks b (mem_blocks found)).next
  · intro r b found name
    exact link fun target plugged => (closed.blocks b (mem_blocks found)).inputs _ (Entries.mem_of_get? plugged)

theorem Block.Within.mono {m n : Nat} (within : b.Within m) (less : m ≤ n) : b.Within n :=
  ⟨fun r link => (within.next r link).trans_le less, fun e plugged => (within.inputs e plugged).trans_le less⟩

theorem Block.Within.alter {n : Nat} {w : Write} (within : b.Within n) (named : ∀ r ∈ w.places, r.index < n) :
    (w.alter b).Within n := by
  cases w with
  | next source target =>
    refine ⟨?_, within.inputs⟩
    rintro _ ⟨⟩
    exact named target (by simp [Write.places])
  | input source name target =>
    refine ⟨within.next, fun e plugged => ?_⟩
    rcases Entries.mem_put plugged with rfl | old
    · exact named target (by simp [Write.places])
    · exact within.inputs e old
  | field source name value => exact ⟨within.next, within.inputs⟩

theorem closed_empty : empty.Closed := ⟨nofun, nofun⟩

theorem Closed.addBlock (closed : a.Closed) (id : BlockId) (kind : String) : (a.addBlock id kind).2.Closed := by
  have grown : a.size ≤ (a.addBlock id kind).2.size := (Nat.le_succ a.size).trans_eq (Array.size_push ..).symm
  refine ⟨fun r entry => (closed.top r entry).trans_le grown, fun b inside => ?_⟩
  -- The new block has no links, and those of the older ones lead to places below the old size.
  rcases Array.mem_push.mp inside with old | rfl
  · exact (closed.blocks b old).mono grown
  · exact ⟨nofun, nofun⟩

theorem Closed.addTop (closed : a.Closed) (id : BlockId) (kind : String) : (a.addTop id kind).2.Closed := by
  have below := closed.addBlock id kind
  refine ⟨fun r entry => ?_, below.blocks⟩
  rcases List.mem_append.mp entry with old | new
  · exact below.top r old
  · rw [List.mem_singleton.mp new]
    exact (Nat.lt_succ_self a.size).trans_eq (Array.size_push ..).symm

theorem Closed.write (closed : a.Closed) (w : Write) : (w.run a).Closed := by
  have top : ∀ r ∈ (w.run a).top, r.index < (w.run a).size := by simpa using closed.top
  refine ⟨top, fun b inside => ?_⟩
  rw [Write.size_run]
  rw [Write.run_eq] at inside
  split at inside
  next fit =>
    have named : ∀ r ∈ w.places, r.index < a.size := fun r named =>
      contains_iff.mp (List.all_eq_true.mp fit r named)
    obtain ⟨i, small, rfl⟩ := Array.mem_iff_getElem.mp inside
    have old : i < a.blocks.size := small.trans_eq (Array.size_modify ..)
    have within := closed.blocks a.blocks[i] (Array.getElem_mem old)
    simp only [modify, Array.getElem_modify]
    split
    next => exact within.alter named
    next => exact within
  next => exact closed.blocks b inside

theorem Closed.writes (closed : a.Closed) (writes : List Write) : (writes.foldl Write.run a).Closed := by
  induction writes generalizing a with
  | nil => exact closed
  | cons w writes ih => exact ih (closed.write w)

theorem Closed.call (closed : a.Closed) (c : Call) : (c.run a).Closed := by
  cases c with
  | block id kind => exact closed.addBlock id kind
  | top id kind => exact closed.addTop id kind
  | write w => exact closed.write w
  | chain refs =>
    rw [Call.run, chain_eq]
    exact closed.writes (links refs)

theorem closed_build (calls : List Call) : (build calls).Closed := by
  have kept {a : Arena} (closed : a.Closed) : (calls.foldl Call.run a).Closed := by
    induction calls generalizing a with
    | nil => exact closed
    | cons c calls ih => exact ih (closed.call c)
  exact kept closed_empty

end Closing

section Keeping

/-- What a call makes of an arena. It adds its block behind the others, puts what it writes into the parts that it
names, and leaves all other parts of all blocks as they were. Its links that do not fit might as well be missing. -/
structure Call.Does (c : Call) (a later : Arena) : Prop where
  labels : later.labels = a.labels ++ c.adds
  top : later.top = a.top ++ c.entries a
  content : ∀ r part, later.content? r part = (put? a c.writes r part).or (a.content? r part)
  linked : c.adds = [] → later = (c.writes.filter (Write.fits a)).foldl Write.run a

theorem length_labels (a : Arena) : a.labels.length = a.size := by
  rw [labels, List.length_map, Array.length_toList, size]

theorem labels_addBlock (a : Arena) (id : BlockId) (kind : String) :
    (a.addBlock id kind).2.labels = a.labels ++ [(id, kind)] := by
  rw [labels, addBlock, Array.toList_push, List.map_append]
  rfl

theorem content?_addBlock (a : Arena) (id : BlockId) (kind : String) (r : BlockRef) (part : Part) :
    (a.addBlock id kind).2.content? r part = a.content? r part := by
  simp only [content?, block?, addBlock, Array.getElem?_push]
  split
  next last =>
    rw [last, Array.getElem?_eq_none (Nat.le_refl _)]
    cases part <;> rfl
  next => rfl

theorem does_writes {c : Call} {a later : Arena} (nothing : c.adds = []) (low : c.entries a = [])
    (same : later = c.writes.foldl Write.run a) : c.Does a later where
  labels := by rw [same, writes_keep Write.labels_run, nothing, List.append_nil]
  top := by rw [same, writes_keep Write.top_run, low, List.append_nil]
  content r part := by rw [same, content?_writes]
  linked _ := by rw [same, writes_filter fun _ fit => fit]

theorem does_run (c : Call) (a : Arena) : c.Does a (c.run a) := by
  cases c with
  | block id kind =>
    exact ⟨labels_addBlock a id kind, (List.append_nil _).symm, content?_addBlock a id kind, nofun⟩
  | top id kind => exact ⟨labels_addBlock a id kind, rfl, content?_addBlock a id kind, nofun⟩
  | write w => exact does_writes rfl rfl rfl
  | chain refs => exact does_writes rfl rfl (chain_eq a refs)

theorem labels_build (calls : List Call) : (build calls).labels = calls.flatMap Call.adds := by
  have grown (a : Arena) : (calls.foldl Call.run a).labels = a.labels ++ calls.flatMap Call.adds := by
    induction calls generalizing a with
    | nil => exact (List.append_nil _).symm
    | cons c calls ih =>
      rw [List.foldl_cons, ih, (does_run c a).labels, List.append_assoc, List.flatMap_cons]
  exact grown empty

theorem hands?_eq_some_iff {c : Call} {a : Arena} {r : BlockRef} :
    c.hands? a = some r ↔ r = ⟨a.size⟩ ∧ c.adds ≠ [] := by
  cases c <;> simp [Call.hands?, Call.adds, addBlock, addTop, eq_comm]

theorem label_block? (a : Arena) (r : BlockRef) :
    (a.block? r).map (fun b => (b.id, b.kind)) = a.labels[r.index]? := by
  rw [labels, List.getElem?_map, Array.getElem?_toList, block?]

/-- In an arena built by any calls, with any places, all links lead to blocks, and so does every way from the top.
Each call does what it names and no more. A place that was handed out stays the place of the block that was added
with it, under its id and its kind. -/
theorem build_orderly (calls : List Call) :
    (build calls).Closed ∧ (build calls).Followed ∧ (∀ c : Call, c.Does (build calls) (c.run (build calls))) ∧
      ∀ before c after r, calls = before ++ c :: after → c.hands? (build before) = some r →
        r.index = (build before).size ∧
          ((build calls).block? r).map (fun b => (b.id, b.kind)) = c.adds.head? ∧ c.adds ≠ [] := by
  refine ⟨closed_build calls, (closed_build calls).followed, fun c => does_run c _, ?_⟩
  rintro before c after r rfl handed
  obtain ⟨rfl, adding⟩ := hands?_eq_some_iff.mp handed
  refine ⟨rfl, ?_, adding⟩
  have place : (build before).size = (before.flatMap Call.adds).length := by
    rw [← labels_build, length_labels]
  rw [label_block?, labels_build, List.flatMap_append, List.flatMap_cons, place,
    List.getElem?_append_right (Nat.le_refl _), Nat.sub_self]
  cases c with
  | block id kind | top id kind => rfl
  | write w | chain refs => exact absurd rfl adding

end Keeping

section Foreign

/-- The arena takes no notice of a place: no link from or to the place is made, whichever of its own blocks stands at
the other end. -/
structure Ignores (a : Arena) (r : BlockRef) : Prop where
  below : ∀ own, a.contains own → a.setNext own r = a
  above : ∀ own, a.contains own → a.setNext r own = a
  plugged : ∀ own name, a.contains own → a.setInput own name r = a
  plugs : ∀ own name, a.contains own → a.setInput r name own = a
  chained : ∀ refs, a.chain refs = ((links refs).filter (r ∉ Write.places ·)).foldl Write.run a

theorem exists_new_name (names : List String) : ∃ name, name ∉ names := by
  have counted : Function.Injective fun n => String.ofList (List.replicate n 'x') := fun m n same => by
    simpa using congrArg String.length same
  have : Infinite String := .of_injective _ counted
  obtain ⟨name, new⟩ := Infinite.exists_notMem_finset names.toFinset
  exact ⟨name, fun old => new (List.mem_toFinset.mpr old)⟩

/-- An arena takes no notice of just those places that it does not have. -/
theorem ignores_iff (a : Arena) (r : BlockRef) : a.Ignores r ↔ a.size ≤ r.index := by
  constructor
  · intro ignores
    by_contra! inside
    -- A block that is plugged into itself, under a name that is not in use, is plugged in.
    obtain ⟨b, found⟩ := exists_block inside
    obtain ⟨name, new⟩ := exists_new_name (b.inputs.map Prod.fst)
    have plugged : a.content? r (.input name) = some (.link r) := by
      rw [← ignores.plugged r name (contains_iff.mpr inside)]
      have put := Write.content?_run a (.input r name r) r (.input name)
      have fit : (Write.input r name r).fits a = true := by
        simp [Write.fits, Write.places, contains_iff, inside]
      rwa [Write.puts?, if_pos ⟨fit, rfl, rfl⟩] at put
    rw [content?, found, Option.bind_some, Block.content?, Option.map_eq_some_iff] at plugged
    obtain ⟨target, old, -⟩ := plugged
    exact new (List.mem_map.mpr ⟨_, Entries.mem_of_get? old, rfl⟩)
  · intro outside
    have misses (w : Write) (named : r ∈ w.places) : w.fits a = false := by
      refine List.all_eq_false.mpr ⟨r, named, ?_⟩
      rw [contains_iff]
      omega
    have idle (w : Write) (named : r ∈ w.places) : w.run a = a := Write.run_of_not_fits (misses w named)
    refine ⟨fun own _ => idle (.next own r) (.tail _ (.head _)), fun own _ => idle (.next r own) (.head _),
      fun own name _ => idle (.input own name r) (.tail _ (.head _)),
      fun own name _ => idle (.input r name own) (.head _), fun refs => ?_⟩
    rw [chain_eq, writes_filter fun w fit => ?_]
    refine decide_eq_true fun named => ?_
    rw [misses w named] at fit
    cases fit

/-- A place that one arena hands out is ignored by another one just if that one is, by then, no larger. -/
theorem ignores_foreign_iff {calls others : List Call} {c : Call} {r : BlockRef}
    (handed : c.hands? (build others) = some r) :
    (build calls).Ignores r ↔ (build calls).size ≤ (build others).size := by
  rw [ignores_iff, (hands?_eq_some_iff.mp handed).1]

def pair : List Call := [.block ⟨"x"⟩ "move", .block ⟨"y"⟩ "move"]

def linked : List Call := [.top ⟨"a"⟩ "start", .block ⟨"b"⟩ "move", .write (.next ⟨0⟩ ⟨1⟩)]

theorem ignores_foreign_iff_third : (Call.block ⟨"z"⟩ "move").hands? (build pair) = some ⟨2⟩ ∧
    ((build linked).Ignores ⟨2⟩ ↔ (build linked).size ≤ (build pair).size) ∧ (build linked).Ignores ⟨2⟩ := by
  have handed : (Call.block ⟨"z"⟩ "move").hands? (build pair) = some ⟨2⟩ := rfl
  exact ⟨handed, ignores_foreign_iff handed, (ignores_foreign_iff handed).mpr (by decide)⟩

def grown : List Call := linked ++ [.block ⟨"c"⟩ "move"]

/-- Once the arena has a third block of its own, the third place of another one stands for it: the link from the first
block to the second gives way to one to the third. -/
theorem foreign_link_taken : (Call.block ⟨"z"⟩ "move").hands? (build pair) = some ⟨2⟩ ∧
    ¬ (build grown).Ignores ⟨2⟩ ∧
      (build grown).content? ⟨0⟩ .next = some (.link ⟨1⟩) ∧
        ((build grown).setNext ⟨0⟩ ⟨2⟩).content? ⟨0⟩ .next = some (.link ⟨2⟩) := by
  refine ⟨rfl, fun ignores => ?_, rfl, rfl⟩
  have small : 3 ≤ 2 := (ignores_iff (build grown) ⟨2⟩).mp ignores
  omega

end Foreign

end BlockPlay.Arena

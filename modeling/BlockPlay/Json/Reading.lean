import BlockPlay.Json.Problem
import BlockPlay.Json.Tree

/-!
Reading data out of trees, from left to right. What is kept is read strictly: strings must be texts,
numbers within range, containers not too deep. What is skipped need only have the form of a value.
The readers of records and lists take a reader for the parts that need only serve for smaller trees,
so that readers of nested data can be defined by recursion on the tree.
-/
namespace BlockPlay.Json

/-- Where a tree comes from. A parsed value has no flaws and no repeated members, and is known as a
whole before it is read. So are members that were kept until it was known what they belong to, but
they may be repeated. -/
inductive Source where
  | text
  | value
  | kept
  deriving DecidableEq, Repr

/-- The source of a tree, and how many more containers may be opened in it. -/
structure Context where
  source : Source
  room : Option Nat
  deriving DecidableEq, Repr

namespace Context

/-- A text in which containers may nest to the usual depth. -/
def text : Context := ⟨.text, some 127⟩

/-- A text in which containers may nest to any depth. -/
def deepText : Context := ⟨.text, none⟩

def value : Context := ⟨.value, none⟩

def kept : Context := ⟨.kept, none⟩

def enter (c : Context) : Except Problem Context :=
  match c.room with
  | none => .ok c
  | some 0 => .error (.flaw .malformed)
  | some (n + 1) => .ok { c with room := some n }

end Context

def failOn : Option Flaw → Except Problem Unit
  | none => .ok ()
  | some f => .error (.flaw f)

def Literal.read (s : Literal) : Except Problem String :=
  match s.spelled with
  | .ok text => .ok text
  | .error f => .error (.flaw f)

namespace Tree

def found : Tree → Except Problem Found
  | .missing => .error (.flaw .cutShort)
  | .broken f => .error (.flaw f)
  | .null => .ok .null
  | .bool b => .ok (.bool b)
  | .number (some (.integer n)) => .ok (.integer n)
  | .number (some (.float x)) => .ok (.float x)
  | .number none => .error (.flaw .malformed)
  | .cutNumber => .error (.flaw .cutShort)
  | .string s => s.read.map .string
  | .array .. => .ok .sequence
  | .object .. => .ok .map

def wrong {α : Type} (t : Tree) (wanted : String) : Except Problem α :=
  match t.found with
  | .ok f => .error (.wrongType f wanted)
  | .error p => .error p

mutual

/-- The first flaw in the form of a tree. Who passes over a number looks for its next character, and
finds a wrong one where the text ends. -/
def flaw? : Tree → Option Flaw
  | .missing => some .cutShort
  | .broken f => some f
  | .string s => s.flaw
  | .array items flaw => (flawItems? items).or flaw
  | .object members flaw => (flawMembers? members).or flaw
  | .cutNumber => some .malformed
  | _ => none

def flawItems? : List Tree → Option Flaw
  | [] => none
  | t :: rest => (flaw? t).or (flawItems? rest)

def flawMembers? : List (Literal × Tree) → Option Flaw
  | [] => none
  | (key, t) :: rest => (key.flaw.or (flaw? t)).or (flawMembers? rest)

end

def skip (t : Tree) : Except Problem Unit := failOn t.flaw?

def readString (t : Tree) : Except Problem String :=
  match t with
  | .string s => s.read
  | t => t.wrong "a string"

def readBool : Tree → Except Problem Bool
  | .bool b => .ok b
  | t => t.wrong "a boolean"

/-- A whole number between two bounds, for which `wanted` is the name. -/
def readInteger (low high : Int) (wanted : String) : Tree → Except Problem Int
  | .number (some (.integer n)) =>
    if low ≤ n && n ≤ high then .ok n else .error (.wrongValue (.integer n) wanted)
  | t => t.wrong wanted

def readInt32 (t : Tree) : Except Problem Int32 :=
  (t.readInteger Int32.minValue.toInt Int32.maxValue.toInt "i32").map Int32.ofInt

def readUInt32 (t : Tree) : Except Problem UInt32 :=
  (t.readInteger 0 (UInt32.size - 1) "u32").map fun n => UInt32.ofNat n.toNat

def readUInt64 (t : Tree) : Except Problem UInt64 :=
  (t.readInteger 0 (UInt64.size - 1) "u64").map fun n => UInt64.ofNat n.toNat

def readSize (t : Tree) : Except Problem Nat :=
  (t.readInteger 0 (UInt64.size - 1) "usize").map Int.toNat

def readFloat : Tree → Except Problem Float
  | .number (some n) => .ok n.toFloat
  | t => t.wrong "f64"

/-- The content of a variant that has none: `null`, and among kept members an empty object too. -/
def readUnit (c : Context) (t : Tree) : Except Problem Unit :=
  match c.source, t with
  | _, .null => .ok ()
  | .kept, .object [] _ => .ok ()
  | _, t => t.wrong "unit"

def variant (known : List String) (name : String) : Except Problem String :=
  if known.contains name then .ok name else .error (.unknownVariant name known)

/-- The name of a variant without content: a string, or an object with the name as its only key and
no content behind it. -/
def readVariant (c : Context) (known : List String) (t : Tree) : Except Problem String :=
  match c.source, t with
  | _, .string s => do variant known (← s.read)
  | .text, .object ((key, content) :: rest) flaw => do
    let _ ← c.enter
    let name ← variant known (← key.read)
    content.readUnit c
    if rest.isEmpty then
      failOn flaw
      return name
    else throw (.flaw .malformed)
  | .text, .object [] flaw => do
    let _ ← c.enter
    throw (.flaw (flaw.getD .malformed))
  | .text, .missing => throw (.flaw .cutShort)
  | .text, _ => throw (.flaw .malformed)
  | _, .object [(key, content)] _ => do
    let name ← variant known (← key.read)
    content.readUnit c
    return name
  | _, .object .. => throw (.wrongValue .map "map with a single key")
  | _, t => t.wrong "string or map"

def isNull : Tree → Bool
  | .null => true
  | _ => false

section Parts

variable {α : Type} {n : Nat}

/-- A reader for trees below a size. -/
abbrev Below (n : Nat) (α : Type) := Context → (t : Tree) → sizeOf t < n → Except Problem α

/-- A reader for trees of any size. -/
def anySize (read : Context → Tree → Except Problem α) : Below n α := fun c t _ => read c t

def readItems (c : Context) (read : Below n α) :
    (items : List Tree) → (∀ t ∈ items, sizeOf t < n) → Except Problem (List α)
  | [], _ => .ok []
  | t :: rest, small => do
    let first ← read c t (small t (by simp))
    let others ← readItems c read rest fun t inside => small t (by simp [inside])
    return first :: others

theorem item_small {items : List Tree} {flaw : Option Flaw} {t : Tree} (inside : t ∈ items) :
    sizeOf t < sizeOf (Tree.array items flaw) := by
  have := List.sizeOf_lt_of_mem inside
  simp only [Tree.array.sizeOf_spec]
  omega

theorem member_small {members : List (Literal × Tree)} {flaw : Option Flaw} {m : Literal × Tree}
    (inside : m ∈ members) : sizeOf m.2 < sizeOf (Tree.object members flaw) := by
  have := List.sizeOf_lt_of_mem inside
  obtain ⟨key, t⟩ := m
  simp only [Tree.object.sizeOf_spec, Prod.mk.sizeOf_spec] at *
  omega

def readList (c : Context) (t : Tree) (read : Below (sizeOf t) α) : Except Problem (List α) :=
  match t with
  | .array items flaw => do
    let inner ← c.enter
    let found ← readItems inner read items fun _ inside => item_small inside
    failOn flaw
    return found
  | t => t.wrong "a sequence"

variable {κ : Type}

def readEntries (c : Context) (put : κ → α → List (κ × α) → List (κ × α))
    (readKey : String → Except Problem κ) (read : Below n α) (found : List (κ × α)) :
    (members : List (Literal × Tree)) → (∀ m ∈ members, sizeOf m.2 < n) →
      Except Problem (List (κ × α))
  | [], _ => .ok found
  | (key, t) :: rest, small => do
    let k ← readKey (← key.read)
    let a ← read c t (small (key, t) (by simp))
    readEntries c put readKey read (put k a found) rest fun m inside => small m (by simp [inside])

/-- An object in which any keys may occur; entries are put one after the other. -/
def readMap (c : Context) (put : κ → α → List (κ × α) → List (κ × α))
    (readKey : String → Except Problem κ) (t : Tree) (read : Below (sizeOf t) α) :
    Except Problem (List (κ × α)) :=
  match t with
  | .object members flaw => do
    let inner ← c.enter
    let found ← readEntries inner put readKey read [] members fun _ inside => member_small inside
    failOn flaw
    return found
  | t => t.wrong "a map"

/-- A field of a record: how it is read into the record. -/
structure Field (n : Nat) (α : Type) where
  name : String
  required : Bool
  read : Context → (t : Tree) → sizeOf t < n → α → Except Problem α

/-- A field whose value does not nest. -/
def field (name : String) (required : Bool) (read : Context → Tree → Except Problem κ)
    (set : κ → α → α) : Field n α :=
  ⟨name, required, fun c t _ a => (read c t).map (set · a)⟩

/-- Reads members into a record, and tells which fields it met. Members that belong to no field are
skipped. -/
def readMembers (c : Context) (fields : List (Field n α)) :
    (members : List (Literal × Tree)) → (∀ m ∈ members, sizeOf m.2 < n) → List String → α →
      Except Problem (List String × α)
  | [], _, seen, a => .ok (seen, a)
  | (key, t) :: rest, small, seen, a => do
    let name ← key.read
    match fields.find? (·.name == name) with
    | none =>
      t.skip
      readMembers c fields rest (fun m inside => small m (by simp [inside])) seen a
    | some f =>
      if seen.contains name then throw (.duplicateField name)
      let a ← f.read c t (small (key, t) (by simp)) a
      readMembers c fields rest (fun m inside => small m (by simp [inside])) (name :: seen) a

def lacking? (fields : List (Field n α)) (seen : List String) : Option String :=
  (fields.find? fun f => f.required && !seen.contains f.name).map Field.name

def withElements (title : String) (n : Nat) : String :=
  if n = 1 then s!"{title} with 1 element" else s!"{title} with {n} elements"

/-- Reads items as the fields of a record in their order. Fields at the end may be left out if they
need not be there; returns the items that are left. -/
def readElements (c : Context) (title : String) (count : Nat) (flaw : Option Flaw) :
    (index : Nat) → List (Field n α) → (items : List Tree) → (∀ t ∈ items, sizeOf t < n) → α →
      Except Problem (List Tree × α)
  | _, [], items, _, a => .ok (items, a)
  | index, f :: fields, t :: rest, small, a => do
    let a ← f.read c t (small t (by simp)) a
    readElements c title count flaw (index + 1) fields rest
      (fun t inside => small t (by simp [inside])) a
  | index, f :: fields, [], small, a => do
    failOn flaw
    if f.required then throw (.wrongLength index (withElements title count))
    readElements c title count flaw (index + 1) fields [] small a

/-- A record, from an object or from a list of its fields. -/
def readRecord (c : Context) (title : String) (start : α) (t : Tree)
    (fields : List (Field (sizeOf t) α)) : Except Problem α :=
  match t with
  | .object members flaw => do
    let inner ← c.enter
    let (seen, a) ← readMembers inner fields members (fun _ inside => member_small inside) [] start
    failOn flaw
    match lacking? fields seen with
    | some name => throw (.missingField name)
    | none => return a
  | .array items flaw => do
    let inner ← c.enter
    let (left, a) ← readElements inner title fields.length flaw 0 fields items
      (fun _ inside => item_small inside) start
    if !left.isEmpty then
      match c.source with
      | .text => throw (.flaw .malformed)
      | _ => throw (.wrongLength items.length "fewer elements in array")
    failOn flaw
    return a
  | t => t.wrong title

end Parts

mutual

/-- Any value at all; of repeated members the last one stays. -/
def readValue (c : Context) : Tree → Except Problem Value
  | .null => .ok .null
  | .bool b => .ok (.bool b)
  | .number (some n) => .ok (.number n)
  | .string s => s.read.map .string
  | .array items flaw => do
    let inner ← c.enter
    let vs ← readValues inner items
    failOn flaw
    return .array vs
  | .object members flaw => do
    let inner ← c.enter
    let vs ← readNamed inner [] members
    failOn flaw
    return .object vs
  | .missing => .error (.flaw .cutShort)
  | .broken f => .error (.flaw f)
  | .number none => .error (.flaw .malformed)
  | .cutNumber => .error (.flaw .cutShort)

def readValues (c : Context) : List Tree → Except Problem (List Value)
  | [] => .ok []
  | t :: rest => do
    let v ← readValue c t
    let vs ← readValues c rest
    return v :: vs

def readNamed (c : Context) (found : Entries Value) :
    List (Literal × Tree) → Except Problem (Entries Value)
  | [] => .ok found
  | (key, t) :: rest => do
    let name ← key.read
    let v ← readValue c t
    readNamed c (Entries.put name v found) rest

end

end Tree

namespace Value

mutual

def tree : Value → Tree
  | null => .null
  | bool b => .bool b
  | number n => .number (some n)
  | string s => .string ⟨.ok s, none⟩
  | array items => .array (trees items) none
  | object members => .object (treeMembers members) none

def trees : List Value → List Tree
  | [] => []
  | v :: rest => v.tree :: trees rest

def treeMembers : List (String × Value) → List (Literal × Tree)
  | [] => []
  | (name, v) :: rest => (⟨.ok name, none⟩, v.tree) :: treeMembers rest

end

end Value

namespace Document

/-- Reads a whole document: data first, and then nothing may follow. -/
def read {α : Type} (d : Document) (reader : Tree → Except Problem α) : Except Problem α := do
  let a ← reader d.tree
  if d.more then throw (.flaw .malformed)
  return a

end Document

def Value.ofBytes (bytes : List UInt8) : Except Problem Value :=
  (Document.ofBytes bytes).read (Tree.readValue .text)

end BlockPlay.Json

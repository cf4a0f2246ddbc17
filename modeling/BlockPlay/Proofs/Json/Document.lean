import BlockPlay.Json.Reading
import BlockPlay.Proofs.Json.Number
import BlockPlay.Proofs.Json.Quoted

/-!
Documents that were written. Both ways to lay out a value come to the tokens of the value, which differ in
nothing but the spaces between them, and these tokens make up its tree.
-/
namespace BlockPlay.Json

open Text (encode)

namespace Value

mutual

/-- The numbers in the value have a form in a document. -/
def Sound : Value → Prop
  | null | bool _ | string _ => True
  | number n => n.Sound
  | array items => AllSound items
  | object members => MembersSound members

def AllSound : List Value → Prop
  | [] => True
  | v :: rest => v.Sound ∧ AllSound rest

def MembersSound : List (String × Value) → Prop
  | [] => True
  | (_, v) :: rest => v.Sound ∧ MembersSound rest

end

mutual

def tokens : Value → List Token
  | null => [.null]
  | bool b => [.bool b]
  | number n => [.number (some n)]
  | string s => [.string ⟨.ok s, none⟩]
  | array items => .openArray :: (itemTokens true items ++ [Token.closeArray])
  | object members => .openObject :: (memberTokens true members ++ [Token.closeObject])

def itemTokens (first : Bool) : List Value → List Token
  | [] => []
  | v :: rest => (if first then [] else [.comma]) ++ v.tokens ++ itemTokens false rest

def memberTokens (first : Bool) : List (String × Value) → List Token
  | [] => []
  | (name, v) :: rest =>
    (if first then [] else [.comma]) ++ [Token.string ⟨.ok name, none⟩, .colon] ++ v.tokens ++
      memberTokens false rest

end

end Value

/-- The character that is a token of its own, and its byte. -/
def Token.mark? : Token → Option (String × UInt8)
  | .openArray => some ("[", 0x5B)
  | .closeArray => some ("]", 0x5D)
  | .openObject => some ("\x7b", 0x7B)
  | .closeObject => some ("\x7d", 0x7D)
  | .comma => some (",", 0x2C)
  | .colon => some (":", 0x3A)
  | _ => none

/-- A text scanned as tokens, whatever follows it. -/
def Settled (text : String) (ts : List Token) : Prop :=
  ∀ rest, tokens [] (Text.bytes text ++ rest) = tokens ts.reverse rest

/-- A text scanned as tokens, as long as what follows does not go on with a number. -/
def Scanned (text : String) (ts : List Token) : Prop :=
  ∀ rest, Ends rest → tokens [] (Text.bytes text ++ rest) = tokens ts.reverse rest

theorem settled_empty : Settled "" [] := fun _ => rfl

section Scanning

variable {text : String} {ts : List Token}

theorem Settled.scanned (settled : Settled text ts) : Scanned text ts := fun rest _ => settled rest

theorem scanToken_mark {token : Token} {mark : String} {b : UInt8} (sign : token.mark? = some (mark, b))
    (rest : List UInt8) :
    Text.bytes mark = [b] ∧ isSpace b = false ∧ Ends (b :: rest) ∧ scanToken b rest = (token, rest) := by
  have ends : Ends (b :: rest) := by
    intro c next
    cases next
    cases token <;> cases sign <;> decide
  cases token <;> cases sign <;> exact ⟨rfl, rfl, ends, rfl⟩

/-- A character that is a token of its own ends what stands before it. -/
theorem Scanned.mark (scanned : Scanned text ts) {token : Token} {mark : String} {b : UInt8}
    (sign : token.mark? = some (mark, b)) : Settled (text ++ mark) (ts ++ [token]) := by
  intro rest
  obtain ⟨single, solid, ends, alone⟩ := scanToken_mark sign rest
  rw [Text.bytes_append, List.append_assoc, single, List.singleton_append, scanned _ ends,
    tokens_step solid alone]
  simp

theorem Settled.quote (settled : Settled text ts) (s : String) :
    Settled (text ++ quote s) (ts ++ [Token.string ⟨.ok s, none⟩]) := by
  intro rest
  rw [Text.bytes_append, List.append_assoc, settled, Text.bytes_eq (Json.quote s), tokens_quote]
  simp

theorem Settled.number (settled : Settled text ts) {n : Number} (sound : n.Sound) :
    Scanned (text ++ n.render) (ts ++ [Token.number (some n)]) := by
  intro rest ends
  rw [Text.bytes_append, List.append_assoc, settled, Text.bytes_eq n.render, Number.tokens_render sound ends]
  simp

theorem Settled.null (settled : Settled text ts) : Settled (text ++ "null") (ts ++ [Token.null]) := by
  intro rest
  rw [Text.bytes_append, List.append_assoc, settled, List.reverse_append]
  exact tokens_step rfl rfl

theorem Settled.bool (settled : Settled text ts) (b : Bool) :
    Settled (text ++ if b then "true" else "false") (ts ++ [Token.bool b]) := by
  intro rest
  rw [Text.bytes_append, List.append_assoc, settled, List.reverse_append]
  cases b <;> exact tokens_step rfl rfl

theorem Settled.space (settled : Settled text ts) : Settled (text ++ " ") ts := by
  intro rest
  rw [Text.bytes_append, List.append_assoc, settled]
  exact tokens_space rfl

theorem Scanned.colon (scanned : Scanned text ts) : Settled (text ++ ": ") (ts ++ [Token.colon]) := by
  have apart : ": " = ":" ++ " " := rfl
  rw [apart, ← String.append_assoc]
  exact Settled.space (scanned.mark rfl)

theorem ends_of_blank {spaces : List UInt8} (blank : ∀ b ∈ spaces, isSpace b) : Ends spaces := by
  intro b next
  have space := blank b (List.mem_of_mem_head? next)
  simp only [isSpace, Bool.or_eq_true, decide_eq_true_eq] at space
  rcases space with ((rfl | rfl) | rfl) | rfl <;> decide

theorem tokens_spaces {spaces : List UInt8} (blank : ∀ b ∈ spaces, isSpace b) (rest : List UInt8)
    (found : List Token) : tokens found (spaces ++ rest) = tokens found rest := by
  induction spaces with
  | nil => rfl
  | cons b spaces ih =>
    rw [List.cons_append, tokens_space (blank b List.mem_cons_self)]
    exact ih fun c inside => blank c (List.mem_cons_of_mem b inside)

/-- A line break and spaces only part what stands around them. -/
theorem Scanned.newLine (scanned : Scanned text ts) (level : Nat) :
    Settled (text ++ Value.newLine level) ts := by
  intro rest
  have line : Text.bytes (Value.newLine level) = 0x0A :: List.replicate (2 * level) 0x20 := by
    have spaces : encode (List.replicate (2 * level) ' ') = List.replicate (2 * level) 0x20 := by
      rw [Text.encode_of_lt (by simp), List.map_replicate]
      rfl
    rw [Value.newLine, Text.bytes_append, Text.bytes_ofList (List.replicate _ ' '), spaces]
    rfl
  have blank : ∀ b ∈ List.replicate (2 * level) (0x20 : UInt8), isSpace b := by
    intro b inside
    rw [List.eq_of_mem_replicate inside]
    rfl
  have ends : Ends (0x0A :: (List.replicate (2 * level) 0x20 ++ rest)) := by
    intro b next
    cases next
    decide
  rw [Text.bytes_append, List.append_assoc, line, List.cons_append, scanned _ ends, tokens_space rfl,
    tokens_spaces blank]

end Scanning

namespace Value

/-- What stands before an item: nothing yet, or a comma. -/
theorem scanned_part {out : String} {ts : List Token} (first : Bool) (ready : Scanned out ts) :
    Scanned (if first then out else out ++ ",") (ts ++ if first then [] else [.comma]) := by
  cases first with
  | true => simpa using ready
  | false => exact (ready.mark rfl).scanned

theorem settled_part {out : String} {ts : List Token} (first : Bool) (ready : Scanned out ts)
    (fresh : first = true → Settled out ts) :
    Settled (if first then out else out ++ ",") (ts ++ if first then [] else [.comma]) := by
  cases first with
  | true => simpa using fresh rfl
  | false => exact ready.mark rfl

mutual

theorem scanned_writeTo {out : String} {ts : List Token} (settled : Settled out ts) :
    (v : Value) → v.Sound → Scanned (writeTo out v) (ts ++ v.tokens)
  | null, _ => settled.null.scanned
  | bool b, _ => (settled.bool b).scanned
  | number _, sound => settled.number sound
  | string s, _ => (settled.quote s).scanned
  | array items, sound => by
    have opened : Settled (out ++ "[") (ts ++ [Token.openArray]) := settled.scanned.mark rfl
    have inside := scanned_writeItems true opened.scanned (fun _ => opened) items sound
    have closed : Settled (writeItems (out ++ "[") true items ++ "]")
      (ts ++ [Token.openArray] ++ itemTokens true items ++ [Token.closeArray]) := inside.mark rfl
    simpa [writeTo, tokens] using closed.scanned
  | object members, sound => by
    have opened : Settled (out ++ "\x7b") (ts ++ [Token.openObject]) := settled.scanned.mark rfl
    have inside := scanned_writeMembers true opened.scanned (fun _ => opened) members sound
    have closed : Settled (writeMembers (out ++ "\x7b") true members ++ "\x7d")
      (ts ++ [Token.openObject] ++ memberTokens true members ++ [Token.closeObject]) := inside.mark rfl
    simpa [writeTo, tokens] using closed.scanned

theorem scanned_writeItems {out : String} {ts : List Token} (first : Bool) (ready : Scanned out ts)
    (fresh : first = true → Settled out ts) :
    (items : List Value) → AllSound items →
      Scanned (writeItems out first items) (ts ++ itemTokens first items)
  | [], _ => by simpa [writeItems, itemTokens] using ready
  | v :: rest, sound => by
    have written := scanned_writeTo (settled_part first ready fresh) v sound.1
    have others := scanned_writeItems false written nofun rest sound.2
    simpa [writeItems, itemTokens] using others

theorem scanned_writeMembers {out : String} {ts : List Token} (first : Bool) (ready : Scanned out ts)
    (fresh : first = true → Settled out ts) :
    (members : List (String × Value)) → MembersSound members →
      Scanned (writeMembers out first members) (ts ++ memberTokens first members)
  | [], _ => by simpa [writeMembers, memberTokens] using ready
  | (name, v) :: rest, sound => by
    have named := (settled_part first ready fresh).quote name
    have marked : Settled (_ ++ ":") (_ ++ [Token.colon]) := named.scanned.mark rfl
    have written := scanned_writeTo marked v sound.1
    have others := scanned_writeMembers false written nofun rest sound.2
    simpa [writeMembers, memberTokens] using others

end

theorem layTo_nil (out : String) (level : Nat) : layTo out level (array []) = writeTo out (array []) := by
  rw [layTo, writeTo, writeItems, String.append_assoc]
  rfl

theorem layTo_empty (out : String) (level : Nat) : layTo out level (object []) = writeTo out (object []) := by
  rw [layTo, writeTo, writeMembers, String.append_assoc]
  rfl

mutual

theorem scanned_layTo {out : String} {ts : List Token} (level : Nat) (settled : Settled out ts) :
    (v : Value) → v.Sound → Scanned (layTo out level v) (ts ++ v.tokens)
  | null, sound | bool _, sound | number _, sound | string _, sound => scanned_writeTo settled _ sound
  | array [], sound => layTo_nil out level ▸ scanned_writeTo settled (array []) sound
  | array (v :: rest), sound => by
    have opened : Settled (out ++ "[") (ts ++ [Token.openArray]) := settled.scanned.mark rfl
    have inside := scanned_layItems (level + 1) true opened.scanned (v :: rest) sound
    have closed : Settled (layItems (out ++ "[") (level + 1) true (v :: rest) ++ newLine level ++ "]")
      (ts ++ [Token.openArray] ++ itemTokens true (v :: rest) ++ [Token.closeArray]) :=
      (inside.newLine level).scanned.mark rfl
    simpa [layTo, tokens] using closed.scanned
  | object [], sound => layTo_empty out level ▸ scanned_writeTo settled (object []) sound
  | object (m :: rest), sound => by
    have opened : Settled (out ++ "\x7b") (ts ++ [Token.openObject]) := settled.scanned.mark rfl
    have inside := scanned_layMembers (level + 1) true opened.scanned (m :: rest) sound
    have closed : Settled (layMembers (out ++ "\x7b") (level + 1) true (m :: rest) ++ newLine level ++ "\x7d")
      (ts ++ [Token.openObject] ++ memberTokens true (m :: rest) ++ [Token.closeObject]) :=
      (inside.newLine level).scanned.mark rfl
    simpa [layTo, tokens] using closed.scanned

theorem scanned_layItems {out : String} {ts : List Token} (level : Nat) (first : Bool)
    (ready : Scanned out ts) :
    (items : List Value) → AllSound items →
      Scanned (layItems out level first items) (ts ++ itemTokens first items)
  | [], _ => by simpa [layItems, itemTokens] using ready
  | v :: rest, sound => by
    have parted := (scanned_part first ready).newLine level
    have written := scanned_layTo level parted v sound.1
    have others := scanned_layItems level false written rest sound.2
    simpa [layItems, itemTokens] using others

theorem scanned_layMembers {out : String} {ts : List Token} (level : Nat) (first : Bool)
    (ready : Scanned out ts) :
    (members : List (String × Value)) → MembersSound members →
      Scanned (layMembers out level first members) (ts ++ memberTokens first members)
  | [], _ => by simpa [layMembers, memberTokens] using ready
  | (name, v) :: rest, sound => by
    have named := ((scanned_part first ready).newLine level).quote name
    have written := scanned_layTo level named.scanned.colon v sound.1
    have others := scanned_layMembers level false written rest sound.2
    simpa [layMembers, memberTokens] using others

end

theorem scanned_render {v : Value} (sound : v.Sound) : Scanned v.render v.tokens := by
  simpa [render] using scanned_writeTo settled_empty v sound

theorem scanned_renderPretty {v : Value} (sound : v.Sound) : Scanned v.renderPretty v.tokens := by
  simpa [renderPretty] using scanned_layTo 0 settled_empty v sound

end Value

namespace Tree

open Value (itemTokens memberTokens)

/-- The first item is read as if a comma stood before it. -/
theorem build_first (outer : List Open) (v : Value) (rest : List Token) :
    build .itemOrClose outer (v.tokens ++ rest) = build .value (.array [] :: outer) (v.tokens ++ rest) := by
  cases v <;> rfl

theorem build_key (members : List (Literal × Tree)) (outer : List Open) (key : Literal)
    (known : key.flaw = none) (rest : List Token) :
    build (.keyOrClose members) outer (.string key :: .colon :: rest) =
      build .value (.object members key :: outer) rest := by
  obtain ⟨spelled, flaw⟩ := key
  cases known
  cases members <;> rfl

mutual

/-- The tokens of a value make up its tree. -/
theorem build_tokens (outer : List Open) (rest : List Token) : (v : Value) →
    build .value outer (v.tokens ++ rest) = build (close v.tree outer).1 (close v.tree outer).2 rest
  | .null | .bool _ | .number _ | .string _ => rfl
  | .array [] => rfl
  | .array (v :: items) => by
    have inside := build_itemTokens [v.tree] outer rest items
    have first := build_tokens (.array [] :: outer) (itemTokens false items ++ .closeArray :: rest) v
    rw [← build_first] at first
    simpa [Value.tokens, itemTokens, Value.tree, Value.trees, build] using first.trans inside
  | .object [] => rfl
  | .object ((name, v) :: members) => by
    have inside := build_memberTokens [(⟨.ok name, none⟩, v.tree)] outer rest members
    have first := build_tokens (.object [] ⟨.ok name, none⟩ :: outer)
      (memberTokens false members ++ .closeObject :: rest) v
    rw [← build_key _ _ _ rfl] at first
    simpa [Value.tokens, memberTokens, Value.tree, Value.treeMembers, build] using first.trans inside

theorem build_itemTokens (done : List Tree) (outer : List Open) (rest : List Token) : (items : List Value) →
    build (.afterItem done) outer (itemTokens false items ++ .closeArray :: rest) =
      build (close (.array (done.reverse ++ Value.trees items) none) outer).1
        (close (.array (done.reverse ++ Value.trees items) none) outer).2 rest
  | [] => by simp [itemTokens, Value.trees, build]
  | v :: items => by
    have next := build_tokens (.array done :: outer) (itemTokens false items ++ .closeArray :: rest) v
    have others := build_itemTokens (v.tree :: done) outer rest items
    simpa [itemTokens, Value.trees, build] using next.trans others

theorem build_memberTokens (done : List (Literal × Tree)) (outer : List Open) (rest : List Token) :
    (members : List (String × Value)) →
      build (.afterMember done) outer (memberTokens false members ++ .closeObject :: rest) =
        build (close (.object (done.reverse ++ Value.treeMembers members) none) outer).1
          (close (.object (done.reverse ++ Value.treeMembers members) none) outer).2 rest
  | [] => by simp [memberTokens, Value.treeMembers, build]
  | (name, v) :: members => by
    have next := build_tokens (.object done ⟨.ok name, none⟩ :: outer)
      (memberTokens false members ++ .closeObject :: rest) v
    have others := build_memberTokens ((⟨.ok name, none⟩, v.tree) :: done) outer rest members
    rw [← build_key _ _ _ rfl] at next
    simpa [memberTokens, Value.treeMembers, build] using next.trans others

end

end Tree

/-- A text scanned as the tokens of a value is a document of this value, and spaces may follow it. -/
theorem Scanned.document {text : String} {v : Value} (scanned : Scanned text v.tokens) {spaces : List UInt8}
    (blank : ∀ b ∈ spaces, isSpace b) :
    Document.ofBytes (Text.bytes text ++ spaces) = ⟨v.tree, false⟩ := by
  have last := tokens_spaces blank [] v.tokens.reverse
  have built := Tree.build_tokens [] [] v
  rw [List.append_nil] at last built
  rw [Document.ofBytes, scanned _ (ends_of_blank blank), last, tokens, List.reverse_reverse, built]
  rfl

end BlockPlay.Json

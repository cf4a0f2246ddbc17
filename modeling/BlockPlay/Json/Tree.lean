import BlockPlay.Json.Token

/-!
The shape of a JSON text, as far as it goes. A `Tree` keeps the order and the repetitions of members,
and ends at the first flaw, so that a reader who works from left to right meets its own objections
before a flaw further on.
-/
namespace BlockPlay.Json

inductive Tree where
  /-- The text ends where a value is due. -/
  | missing
  | broken (f : Flaw)
  | null
  | bool (b : Bool)
  | number (n : Option Number)
  /-- A number in which the text ends. -/
  | cutNumber
  | string (s : Literal)
  /-- The flaw is what stands in the place of a comma or of the closing bracket. -/
  | array (items : List Tree) (flaw : Option Flaw)
  | object (members : List (Literal × Tree)) (flaw : Option Flaw)
  deriving Inhabited

def Literal.absent (f : Flaw) : Literal := ⟨.error f, some f⟩

/-- A container that is being read, its last part first. -/
inductive Open where
  | array (items : List Tree)
  | object (members : List (Literal × Tree)) (key : Literal)

inductive Expect where
  | value
  | itemOrClose
  | keyOrClose (members : List (Literal × Tree))
  | colon (members : List (Literal × Tree)) (key : Literal)
  | afterItem (items : List Tree)
  | afterMember (members : List (Literal × Tree))
  | nothing (t : Tree)

/-- A text read to its end: the value at its beginning, and whether anything follows. -/
structure Document where
  tree : Tree
  more : Bool
  deriving Inhabited

namespace Tree

/-- Puts a tree in which the text ends into the containers around it. -/
def enclose (t : Tree) : List Open → Tree
  | [] => t
  | .array items :: outer => enclose (.array (t :: items).reverse none) outer
  | .object members key :: outer => enclose (.object ((key, t) :: members).reverse none) outer

def close (t : Tree) : List Open → Expect × List Open
  | [] => (.nothing t, [])
  | .array items :: outer => (.afterItem (t :: items), outer)
  | .object members key :: outer => (.afterMember ((key, t) :: members), outer)

def ofToken : Token → Tree
  | .null => .null
  | .bool b => .bool b
  | .number n => .number n
  | .cutNumber => .cutNumber
  | .string s => .string s
  | .broken f => .broken f
  | .openArray => .array [] none
  | .openObject => .object [] none
  | _ => .broken .malformed

def atEnd (outer : List Open) : Expect → Document
  | .value => ⟨enclose .missing outer, false⟩
  | .itemOrClose => ⟨enclose (.array [] (some .cutShort)) outer, false⟩
  | .keyOrClose [] => ⟨enclose (.object [] (some .cutShort)) outer, false⟩
  | .keyOrClose members =>
    ⟨enclose (.object ((.absent .cutShort, .missing) :: members).reverse none) outer, false⟩
  | .colon members key => ⟨enclose (.object ((key, .missing) :: members).reverse none) outer, false⟩
  | .afterItem items => ⟨enclose (.array items.reverse (some .cutShort)) outer, false⟩
  | .afterMember members => ⟨enclose (.object members.reverse (some .cutShort)) outer, false⟩
  | .nothing t => ⟨t, false⟩

/-- The document that the tokens make up, where the containers around them are `outer`. -/
def build (expect : Expect) (outer : List Open) : List Token → Document
  | [] => atEnd outer expect
  | token :: rest =>
    let value (outer : List Open) : Document :=
      match token with
      | .openArray => build .itemOrClose outer rest
      | .openObject => build (.keyOrClose []) outer rest
      | .null | .bool _ | .number _ | .string ⟨_, none⟩ =>
        let next := close (ofToken token) outer
        build next.1 next.2 rest
      | _ => ⟨enclose (ofToken token) outer, false⟩
    match expect with
    | .value => value outer
    | .itemOrClose =>
      match token with
      | .closeArray =>
        let next := close (.array [] none) outer
        build next.1 next.2 rest
      | .openArray => build .itemOrClose (.array [] :: outer) rest
      | .openObject => build (.keyOrClose []) (.array [] :: outer) rest
      | .null | .bool _ | .number _ | .string ⟨_, none⟩ =>
        build (.afterItem [ofToken token]) outer rest
      | _ => ⟨enclose (.array [ofToken token] none) outer, false⟩
    | .keyOrClose members =>
      match token, members with
      | .string ⟨spelled, none⟩, _ => build (.colon members ⟨spelled, none⟩) outer rest
      | .string ⟨spelled, some f⟩, _ =>
        ⟨enclose (.object ((⟨spelled, some f⟩, .broken f) :: members).reverse none) outer, false⟩
      | .closeObject, [] =>
        let next := close (.object [] none) outer
        build next.1 next.2 rest
      | _, [] => ⟨enclose (.object [] (some .malformed)) outer, false⟩
      | _, _ =>
        ⟨enclose (.object ((.absent .malformed, .missing) :: members).reverse none) outer, false⟩
    | .colon members key =>
      match token with
      | .colon => build .value (.object members key :: outer) rest
      | _ => ⟨enclose (.object ((key, .broken .malformed) :: members).reverse none) outer, false⟩
    | .afterItem items =>
      match token with
      | .comma => build .value (.array items :: outer) rest
      | .closeArray =>
        let next := close (.array items.reverse none) outer
        build next.1 next.2 rest
      | _ => ⟨enclose (.array items.reverse (some .malformed)) outer, false⟩
    | .afterMember members =>
      match token with
      | .comma => build (.keyOrClose members) outer rest
      | .closeObject =>
        let next := close (.object members.reverse none) outer
        build next.1 next.2 rest
      | _ => ⟨enclose (.object members.reverse (some .malformed)) outer, false⟩
    | .nothing t => ⟨t, true⟩

end Tree

def Document.ofBytes (bytes : List UInt8) : Document := Tree.build .value [] (tokens [] bytes)

end BlockPlay.Json

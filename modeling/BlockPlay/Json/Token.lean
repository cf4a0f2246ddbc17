import BlockPlay.Decimal.Numeral
import BlockPlay.Json.Value

/-!
The tokens of a JSON text. Scanning stops at the first flaw, which becomes the last token. A string
remembers both what it spells and whether it is a well-formed run of characters and escapes: text
that nobody keeps may spell nothing.
-/
namespace BlockPlay.Json

/-- What is wrong with a text: a wrong character, or an end that comes too early. -/
inductive Flaw where
  | malformed
  | cutShort
  deriving DecidableEq, Repr, Inhabited

inductive Piece where
  | byte (b : UInt8)
  | unit (n : Nat)
  deriving DecidableEq, Repr

structure Literal where
  spelled : Except Flaw String
  flaw : Option Flaw
  deriving Inhabited

inductive Token where
  | openArray
  | closeArray
  | openObject
  | closeObject
  | comma
  | colon
  | null
  | bool (b : Bool)
  /-- A number beyond the range of numbers is `none`. -/
  | number (n : Option Number)
  /-- A number in which the text ends. -/
  | cutNumber
  | string (s : Literal)
  | broken (f : Flaw)
  deriving Inhabited

def isDigit (b : UInt8) : Bool := 0x30 ≤ b && b ≤ 0x39

def hexDigit? (b : UInt8) : Option Nat :=
  if isDigit b then some (b.toNat - 0x30)
  else if 0x41 ≤ b && b ≤ 0x46 then some (b.toNat - 0x37)
  else if 0x61 ≤ b && b ≤ 0x66 then some (b.toNat - 0x57)
  else none

/-- A number of four digits in base sixteen. -/
def codeUnit? (a b c d : UInt8) : Option Nat := do
  let a ← hexDigit? a
  let b ← hexDigit? b
  let c ← hexDigit? c
  let d ← hexDigit? d
  some (0x1000 * a + 0x100 * b + 0x10 * c + d)

def shortEscape? (b : UInt8) : Option UInt8 :=
  [(0x22, 0x22), (0x5C, 0x5C), (0x2F, 0x2F), (0x62, 8), (0x66, 12), (0x6E, 10), (0x72, 13), (0x74, 9)].lookup b

def scanString (found : List Piece) : List UInt8 → List Piece × Except Flaw (List UInt8)
  | [] => (found.reverse, .error .cutShort)
  | 0x22 :: rest => (found.reverse, .ok rest)
  | 0x5C :: 0x75 :: a :: b :: c :: d :: rest =>
    match codeUnit? a b c d with
    | some n => scanString (.unit n :: found) rest
    | none => (found.reverse, .error .malformed)
  | 0x5C :: 0x75 :: _ => (found.reverse, .error .cutShort)
  | 0x5C :: e :: rest =>
    match shortEscape? e with
    | some b => scanString (.byte b :: found) rest
    | none => (found.reverse, .error .malformed)
  | [0x5C] => (found.reverse, .error .cutShort)
  | b :: rest =>
    if b < 0x20 then (found.reverse, .error .malformed) else scanString (.byte b :: found) rest

def leading (n : Nat) : Bool := 0xD800 ≤ n && n ≤ 0xDBFF
def trailing (n : Nat) : Bool := 0xDC00 ≤ n && n ≤ 0xDFFF

/-- The bytes that the parts come to, behind those already `spelled` (last first). Code units of
surrogates count only in pairs. -/
def spell (flaw : Option Flaw) (spelled : List UInt8) : List Piece → Except Flaw (List UInt8)
  | [] =>
    match flaw with
    | none => .ok spelled.reverse
    | some f => .error f
  | .byte b :: rest => spell flaw (b :: spelled) rest
  | .unit n :: rest =>
    if trailing n then .error .malformed
    else if leading n then
      match rest with
      | [] => .error (flaw.getD .malformed)
      | .unit m :: rest =>
        if trailing m then
          let c := Char.ofNat (0x10000 + 0x400 * (n - 0xD800) + (m - 0xDC00))
          spell flaw ((String.utf8EncodeChar c).reverse ++ spelled) rest
        else .error .malformed
      | .byte _ :: _ => .error .malformed
    else spell flaw ((String.utf8EncodeChar (Char.ofNat n)).reverse ++ spelled) rest

/-- A string from its parts; what it spells must be a text. -/
def Literal.ofPieces (pieces : List Piece) (flaw : Option Flaw) : Literal where
  spelled :=
    match spell flaw [] pieces with
    | .error f => .error f
    | .ok bytes =>
      match String.fromUTF8? ⟨bytes.toArray⟩ with
      | some s => .ok s
      | none => .error .malformed
  flaw := flaw

/-- The flaw of a text that goes on with the wrong bytes, or not at all. -/
def flawAt : List UInt8 → Flaw
  | [] => .cutShort
  | _ => .malformed

def asDigits (bytes : List UInt8) : List Char := bytes.map fun b => Char.ofNat b.toNat

/-- A number without point and exponent is whole if it fits a word; a minus zero is not. One that does not fit is read
as the nearest float. -/
def wholeNumber (negative : Bool) (whole : List UInt8) : Option Number :=
  let n := Decimal.readDigits 0 (asDigits whole)
  if negative && n == 0 then some (.float (-0.0))
  else if negative && n ≤ Int64.minValue.toInt.natAbs then some (.integer (-(n : Int)))
  else if !negative && n < UInt64.size then some (.integer n)
  else
    let x := (Decimal.Numeral.mk negative n 0).toFloat
    if x.isFinite then some (.float x) else none

/-- A number with a point or an exponent is read as the nearest float, with ties to even; one that lies beyond all
floats is refused. -/
def decimalNumber (negative : Bool) (whole fraction : List UInt8) (exponent : Int) :
    Option Number :=
  let x := (Decimal.Numeral.ofParts negative (asDigits whole) (asDigits fraction) exponent).toFloat
  if x.isFinite then some (.float x) else none

/-- Whether a run of digits has a minus in front, and what follows the sign. -/
def splitMark : List UInt8 → Bool × List UInt8
  | 0x2D :: rest => (true, rest)
  | 0x2B :: rest => (false, rest)
  | bytes => (false, bytes)

/-- The exponent of a number, if there is one, and what follows. -/
def scanExponent (bytes : List UInt8) : Except Flaw (Option Int × List UInt8) :=
  match bytes with
  | [] => .ok (none, [])
  | b :: rest =>
    if b = 0x65 || b = 0x45 then
      let mark := splitMark rest
      let after := mark.2.dropWhile isDigit
      if (mark.2.takeWhile isDigit).isEmpty then .error (flawAt after)
      else
        let n : Int := Decimal.readDigits 0 (asDigits (mark.2.takeWhile isDigit))
        .ok (some (if mark.1 then -n else n), after)
    else .ok (none, bytes)

/-- The digits behind the point of a number, if it has one, and what follows. -/
def scanFraction (bytes : List UInt8) : Except Flaw (Option (List UInt8) × List UInt8) :=
  match bytes with
  | [] => .ok (none, [])
  | b :: rest =>
    if b = 0x2E then
      if (rest.takeWhile isDigit).isEmpty then .error (flawAt (rest.dropWhile isDigit))
      else .ok (some (rest.takeWhile isDigit), rest.dropWhile isDigit)
    else .ok (none, bytes)

/-- A number behind its sign, and what follows. A leading zero stands alone. -/
def scanNumber (negative : Bool) (bytes : List UInt8) : Except Flaw (Option Number × List UInt8) :=
  let whole := bytes.takeWhile isDigit
  let after := bytes.dropWhile isDigit
  if whole.isEmpty then .error (flawAt after)
  else if whole.head? == some 0x30 && 1 < whole.length then .error .malformed
  else
    match scanFraction after with
    | .error f => .error f
    | .ok (fraction, after) =>
      match scanExponent after with
      | .error f => .error f
      | .ok (exponent, after) =>
        match fraction, exponent with
        | none, none => .ok (wholeNumber negative whole, after)
        | _, _ =>
          .ok (decimalNumber negative whole (fraction.getD []) (exponent.getD 0), after)

def scanWord : List UInt8 → List UInt8 → Except Flaw (List UInt8)
  | [], rest => .ok rest
  | _ :: _, [] => .error .cutShort
  | w :: word, b :: rest => if w = b then scanWord word rest else .error .malformed

def wordToken (token : Token) (letters rest : List UInt8) : Token × List UInt8 :=
  match scanWord letters rest with
  | .ok after => (token, after)
  | .error f => (.broken f, [])

def numberToken (negative : Bool) (bytes : List UInt8) : Token × List UInt8 :=
  match scanNumber negative bytes with
  | .ok (n, after) => (.number n, after)
  | .error .cutShort => (.cutNumber, [])
  | .error .malformed => (.broken .malformed, [])

def stringToken (rest : List UInt8) : Token × List UInt8 :=
  match scanString [] rest with
  | (pieces, .ok after) => (.string (Literal.ofPieces pieces none), after)
  | (pieces, .error f) => (.string (Literal.ofPieces pieces (some f)), [])

def scanToken (b : UInt8) (rest : List UInt8) : Token × List UInt8 :=
  match b with
  | 0x5B => (.openArray, rest)
  | 0x5D => (.closeArray, rest)
  | 0x7B => (.openObject, rest)
  | 0x7D => (.closeObject, rest)
  | 0x2C => (.comma, rest)
  | 0x3A => (.colon, rest)
  | 0x22 => stringToken rest
  | 0x6E => wordToken .null [0x75, 0x6C, 0x6C] rest
  | 0x74 => wordToken (.bool true) [0x72, 0x75, 0x65] rest
  | 0x66 => wordToken (.bool false) [0x61, 0x6C, 0x73, 0x65] rest
  | 0x2D => numberToken true rest
  | b => if isDigit b then numberToken false (b :: rest) else (.broken .malformed, [])

def isSpace (b : UInt8) : Bool := b = 0x20 || b = 0x09 || b = 0x0A || b = 0x0D

theorem scanString_shorter {found : List Piece} {bytes after : List UInt8}
    (h : (scanString found bytes).2 = .ok after) : after.length < bytes.length := by
  fun_induction scanString found bytes <;> simp_all <;> omega

theorem dropDigits_le (bytes : List UInt8) : (bytes.dropWhile isDigit).length ≤ bytes.length :=
  (List.dropWhile_sublist isDigit).length_le

theorem splitMark_le (bytes : List UInt8) : (splitMark bytes).2.length ≤ bytes.length := by
  unfold splitMark
  split <;> simp

theorem scanExponent_le {bytes after : List UInt8} {n : Option Int}
    (h : scanExponent bytes = .ok (n, after)) : after.length ≤ bytes.length := by
  unfold scanExponent at h
  split at h
  · simp_all
  · rename_i b rest
    have marked := splitMark_le rest
    have digits := dropDigits_le (splitMark rest).2
    grind

theorem scanFraction_le {bytes after : List UInt8} {f : Option (List UInt8)}
    (h : scanFraction bytes = .ok (f, after)) : after.length ≤ bytes.length := by
  unfold scanFraction at h
  split at h
  · simp_all
  · rename_i b rest
    have digits := dropDigits_le rest
    grind

theorem scanNumber_le {negative : Bool} {bytes after : List UInt8} {n : Option Number}
    (h : scanNumber negative bytes = .ok (n, after)) :
    after.length ≤ (bytes.dropWhile isDigit).length := by
  unfold scanNumber at h
  simp only at h
  split at h <;> try contradiction
  split at h <;> try contradiction
  split at h <;> try contradiction
  rename_i fraction
  split at h <;> try contradiction
  rename_i exponent
  have first := scanFraction_le fraction
  have second := scanExponent_le exponent
  split at h <;> (injection h with h; injection h with _ h; subst h; omega)

theorem scanWord_le {word bytes after : List UInt8} (h : scanWord word bytes = .ok after) :
    after.length ≤ bytes.length := by
  fun_induction scanWord word bytes with
  | case1 bytes =>
    cases h
    exact Nat.le_refl _
  | case2 => contradiction
  | case3 word b rest ih => exact Nat.le_succ_of_le (ih h)
  | case4 => contradiction

theorem wordToken_le (token : Token) (letters rest : List UInt8) :
    (wordToken token letters rest).2.length ≤ rest.length := by
  unfold wordToken
  split
  · next h => exact scanWord_le h
  · simp

theorem numberToken_le (negative : Bool) (bytes : List UInt8) :
    (numberToken negative bytes).2.length ≤ (bytes.dropWhile isDigit).length := by
  unfold numberToken
  split
  · next h => exact scanNumber_le h
  · simp
  · simp

theorem stringToken_le (rest : List UInt8) : (stringToken rest).2.length ≤ rest.length := by
  unfold stringToken
  split
  · next h => exact Nat.le_of_lt (scanString_shorter (congrArg Prod.snd h))
  · simp

theorem scanToken_le (b : UInt8) (rest : List UInt8) :
    (scanToken b rest).2.length ≤ rest.length := by
  unfold scanToken
  split
  case h_7 => exact stringToken_le rest
  case h_11 => exact Nat.le_trans (numberToken_le true rest) (dropDigits_le rest)
  case h_12 =>
    have positive := numberToken_le false (b :: rest)
    have digits := dropDigits_le rest
    split
    · next digit =>
      rw [List.dropWhile_cons_of_pos digit] at positive
      omega
    · simp
  case h_8 | h_9 | h_10 => exact wordToken_le ..
  all_goals exact Nat.le_refl _

def tokens (found : List Token) (bytes : List UInt8) : List Token :=
  match bytes with
  | [] => found.reverse
  | b :: rest =>
    if isSpace b then tokens found rest
    else
      have := scanToken_le b rest
      tokens ((scanToken b rest).1 :: found) (scanToken b rest).2
termination_by bytes.length

theorem tokens_space {b : UInt8} {rest : List UInt8} {found : List Token} (space : isSpace b) :
    tokens found (b :: rest) = tokens found rest := by
  rw [tokens, if_pos space]

theorem tokens_step {b : UInt8} {rest after : List UInt8} {token : Token} {found : List Token}
    (solid : isSpace b = false) (scanned : scanToken b rest = (token, after)) :
    tokens found (b :: rest) = tokens (token :: found) after := by
  rw [tokens, if_neg (Bool.not_eq_true _ ▸ solid)]
  simp only [scanned]

end BlockPlay.Json

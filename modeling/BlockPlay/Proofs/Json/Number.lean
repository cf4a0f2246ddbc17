import BlockPlay.Json.Token
import BlockPlay.Json.Writer
import BlockPlay.Proofs.Decimal.Layout
import BlockPlay.Proofs.Text.Bytes

/-!
Numbers in a text. Scanning takes a written number whole, as long as nothing follows that could be a part of
it, and reads it as the number that was written.
-/
namespace BlockPlay.Json

open Decimal (Layout isDigit_of_mem_toDigits)
open Text (encode)

/-- What follows does not go on with a number. -/
def Ends (rest : List UInt8) : Prop :=
  ∀ b ∈ rest.head?, isDigit b = false ∧ b ≠ 0x2E ∧ b ≠ 0x65 ∧ b ≠ 0x45

section Digits

theorem lt_of_isDigit {c : Char} (digit : c.isDigit) : c.toNat < 0x80 := by
  simp only [Char.isDigit, Bool.and_eq_true, decide_eq_true_eq] at digit
  exact Nat.lt_of_le_of_lt (UInt32.le_iff_toNat_le.mp digit.2) (by decide)

theorem isDigit_ofNat {c : Char} (digit : c.isDigit) : isDigit (UInt8.ofNat c.toNat) := by
  have low := lt_of_isDigit digit
  simp only [Char.isDigit, Bool.and_eq_true, decide_eq_true_eq, UInt32.le_iff_toNat_le] at digit
  simp only [isDigit, Bool.and_eq_true, decide_eq_true_eq, UInt8.le_iff_toNat_le, UInt8.toNat_ofNat']
  change 48 ≤ c.toNat ∧ c.toNat ≤ 57 at digit
  change 48 ≤ _ ∧ _ ≤ 57
  omega

variable {ds : List Char} (digits : ∀ c ∈ ds, c.isDigit)

include digits

theorem encode_digits : encode ds = ds.map fun c => UInt8.ofNat c.toNat :=
  Text.encode_of_lt fun c inside => lt_of_isDigit (digits c inside)

theorem asDigits_encode : asDigits (encode ds) = ds := by
  rw [asDigits, encode_digits digits, List.map_map]
  refine (List.map_congr_left fun c inside => ?_).trans (List.map_id ds)
  have low := lt_of_isDigit (digits c inside)
  have same : (UInt8.ofNat c.toNat).toNat = c.toNat := UInt8.toNat_ofNat_of_lt' (low.trans (by decide))
  rw [Function.comp_apply, same, Char.ofNat_toNat]
  rfl

theorem isDigit_of_mem_encode {b : UInt8} (inside : b ∈ encode ds) : isDigit b := by
  rw [encode_digits digits] at inside
  obtain ⟨c, among, rfl⟩ := List.mem_map.mp inside
  exact isDigit_ofNat (digits c among)

theorem not_led (lone : ds.head? = some '0' → ds.length = 1) :
    ¬ ((encode ds).head? == some 0x30 && decide (1 < (encode ds).length)) := by
  simp only [Bool.and_eq_true, beq_iff_eq, decide_eq_true_eq]
  rintro ⟨zero, more⟩
  have first : ds.head? = some '0' := by
    rw [← asDigits_encode digits, asDigits, List.head?_map, zero]
    rfl
  rw [encode_digits digits, List.length_map, lone first] at more
  exact absurd more (by decide)

variable {rest : List UInt8} (stops : ∀ b ∈ rest.head?, isDigit b = false)

include stops

theorem takeWhile_digits : (encode ds ++ rest).takeWhile isDigit = encode ds := by
  rw [List.takeWhile_append_of_pos fun b inside => isDigit_of_mem_encode digits inside]
  cases rest with
  | nil => exact List.append_nil _
  | cons b rest =>
    rw [List.takeWhile_cons_of_neg (Bool.not_eq_true _ ▸ stops b rfl), List.append_nil]

theorem dropWhile_digits : (encode ds ++ rest).dropWhile isDigit = rest := by
  rw [List.dropWhile_append_of_pos fun b inside => isDigit_of_mem_encode digits inside]
  cases rest with
  | nil => rfl
  | cons b rest => rw [List.dropWhile_cons_of_neg (Bool.not_eq_true _ ▸ stops b rfl)]

end Digits

section Scanning

variable {rest : List UInt8}

theorem scanFraction_none (stops : ∀ b ∈ rest.head?, b ≠ 0x2E) : scanFraction rest = .ok (none, rest) := by
  cases rest with
  | nil => rfl
  | cons b rest => rw [scanFraction, if_neg (stops b rfl)]

theorem scanExponent_none (stops : ∀ b ∈ rest.head?, b ≠ 0x65 ∧ b ≠ 0x45) :
    scanExponent rest = .ok (none, rest) := by
  cases rest with
  | nil => rfl
  | cons b rest =>
    have other := stops b rfl
    simp [scanExponent, other]

theorem scanFraction_digits {ds : List Char} (digits : ∀ c ∈ ds, c.isDigit) (some : ds ≠ [])
    (stops : ∀ b ∈ rest.head?, isDigit b = false) :
    scanFraction (0x2E :: (encode ds ++ rest)) = .ok (.some (encode ds), rest) := by
  simp only [scanFraction, if_true, takeWhile_digits digits stops, dropWhile_digits digits stops,
    List.isEmpty_iff, Text.encode_ne_nil some, if_false]

theorem encode_exponentText (e : Int) : encode (Layout.exponentText e) =
    0x65 :: (if 0 ≤ e then 0x2B else 0x2D) :: encode (Nat.toDigits 10 e.natAbs) := by
  rw [Layout.exponentText]
  split <;> rfl

theorem splitMark_sign (e : Int) (bytes : List UInt8) :
    splitMark ((if 0 ≤ e then 0x2B else 0x2D) :: bytes) = (decide (e < 0), bytes) := by
  split
  next above => simp [splitMark, Int.not_lt.mpr above]
  next below => simp [splitMark, Int.not_le.mp below]

theorem scanExponent_exponentText {e : Int} (stops : ∀ b ∈ rest.head?, isDigit b = false) :
    scanExponent (encode (Layout.exponentText e) ++ rest) = .ok (some e, rest) := by
  have digits : ∀ c ∈ Nat.toDigits 10 e.natAbs, c.isDigit := fun c => isDigit_of_mem_toDigits
  have some : encode (Nat.toDigits 10 e.natAbs) ≠ [] := Text.encode_ne_nil Nat.toDigits_ne_nil
  have value : (if decide (e < 0) = true then -(e.natAbs : Int) else e.natAbs) = e := by
    simp only [decide_eq_true_eq]
    split <;> omega
  rw [encode_exponentText]
  simp only [List.cons_append, scanExponent, decide_true, Bool.true_or, if_true, splitMark_sign,
    takeWhile_digits digits stops, dropWhile_digits digits stops, asDigits_encode digits,
    Decimal.readDigits_toDigits, List.isEmpty_iff, some, if_false, value]

variable {l : Layout}

/-- An exponent starts with neither a digit nor a point. -/
theorem head?_exponent (exponent : Option Int) (ends : Ends rest) :
    ∀ b ∈ (encode (exponent.elim [] Layout.exponentText) ++ rest).head?, isDigit b = false ∧ b ≠ 0x2E := by
  cases exponent with
  | none => exact fun b next => ⟨(ends b next).1, (ends b next).2.1⟩
  | some e =>
    rw [Option.elim_some, encode_exponentText]
    intro b next
    cases next
    decide

theorem scanExponent_elim (exponent : Option Int) (ends : Ends rest) :
    scanExponent (encode (exponent.elim [] Layout.exponentText) ++ rest) = .ok (exponent, rest) := by
  cases exponent with
  | none => exact scanExponent_none fun b next => (ends b next).2.2
  | some e => exact scanExponent_exponentText fun b next => (ends b next).1

theorem scanNumber_layout (negative : Bool) (sound : l.Sound) (ends : Ends rest) :
    scanNumber negative (encode l.text ++ rest) = .ok (decimalNumber negative (encode l.whole)
      (encode l.fraction) (l.exponent.getD 0), rest) := by
  have tail := head?_exponent l.exponent ends
  set after := encode (l.exponent.elim [] Layout.exponentText) ++ rest with split
  have fraction : scanFraction (encode (if l.fraction = [] then [] else '.' :: l.fraction) ++ after) =
      .ok (if l.fraction = [] then none else some (encode l.fraction), after) := by
    by_cases none : l.fraction = []
    · rw [if_pos none, if_pos none]
      exact scanFraction_none fun b next => (tail b next).2
    · rw [if_neg none, if_neg none]
      exact scanFraction_digits sound.fraction none fun b next => (tail b next).1
  have stops : ∀ b ∈ (encode (if l.fraction = [] then [] else '.' :: l.fraction) ++ after).head?,
      isDigit b = false := by
    split
    next => exact fun b next => (tail b next).1
    next =>
      intro b next
      cases next
      rfl
  have text : encode l.text ++ rest = encode l.whole ++
      (encode (if l.fraction = [] then [] else '.' :: l.fraction) ++ after) := by
    simp only [Layout.text, Text.encode_append, List.append_assoc, split]
  have exponent : scanExponent after = .ok (l.exponent, rest) := scanExponent_elim l.exponent ends
  have lone := not_led sound.whole sound.lone
  rw [text]
  simp only [scanNumber, takeWhile_digits sound.whole stops, dropWhile_digits sound.whole stops, fraction,
    exponent, List.isEmpty_iff, Text.encode_ne_nil sound.some, lone, if_false]
  by_cases none : l.fraction = []
  · obtain ⟨e, given⟩ := Option.isSome_iff_exists.mp (sound.marked.resolve_left (not_not_intro none))
    simp [none, given]
  · simp [none]

theorem scanNumber_digits (negative : Bool) (n : Nat) (ends : Ends rest) :
    scanNumber negative (encode (Nat.toDigits 10 n) ++ rest) =
      .ok (wholeNumber negative (encode (Nat.toDigits 10 n)), rest) := by
  have digits : ∀ c ∈ Nat.toDigits 10 n, c.isDigit := fun c => isDigit_of_mem_toDigits
  have stops : ∀ b ∈ rest.head?, isDigit b = false := fun b next => (ends b next).1
  have lone := not_led digits fun zero => by
    rw [Decimal.eq_zero_of_head? zero, Nat.toDigits_zero, List.length_singleton]
  simp only [scanNumber, takeWhile_digits digits stops, dropWhile_digits digits stops, List.isEmpty_iff,
    Text.encode_ne_nil Nat.toDigits_ne_nil, lone, if_false, scanFraction_none fun b next => (ends b next).2.1,
    scanExponent_none fun b next => (ends b next).2.2]
  rfl

end Scanning

theorem scanToken_digit {b : UInt8} (digit : isDigit b) (rest : List UInt8) :
    scanToken b rest = numberToken false (b :: rest) := by
  unfold scanToken
  split
  case h_12 => rw [if_pos digit]
  all_goals exact absurd digit (by decide)

theorem isSpace_of_isDigit {b : UInt8} (digit : isDigit b) : isSpace b = false := by
  rw [← Bool.not_eq_true]
  intro space
  simp only [isSpace, Bool.or_eq_true, decide_eq_true_eq] at space
  rcases space with ((rfl | rfl) | rfl) | rfl <;> exact absurd digit (by decide)

/-- A number behind its sign is one token. -/
theorem tokens_number {negative : Bool} {c : Char} {cs : List Char} {rest : List UInt8} {n : Option Number}
    {found : List Token} (digit : c.isDigit)
    (scanned : scanNumber negative (encode (c :: cs) ++ rest) = .ok (n, rest)) :
    tokens found (encode ((if negative then ['-'] else []) ++ c :: cs) ++ rest) =
      tokens (.number n :: found) rest := by
  have token : numberToken negative (encode (c :: cs) ++ rest) = (.number n, rest) := by
    rw [numberToken, scanned]
  cases negative with
  | true => exact tokens_step rfl token
  | false =>
    rw [Text.encode_cons, Text.utf8EncodeChar_of_lt (lt_of_isDigit digit)] at token
    rw [if_neg Bool.false_ne_true, List.nil_append, Text.encode_cons,
      Text.utf8EncodeChar_of_lt (lt_of_isDigit digit)]
    have first := isDigit_ofNat digit
    exact tokens_step (isSpace_of_isDigit first) ((scanToken_digit first _).trans token)

namespace Number

/-- Whole numbers that fit a word, and all finite floats. -/
def Sound : Number → Prop
  | integer n => Int64.minValue.toInt ≤ n ∧ n < UInt64.size
  | float x => x.isFinite

theorem wholeNumber_toDigits {n : Int} (sound : (integer n).Sound) :
    wholeNumber (decide (n < 0)) (encode (Nat.toDigits 10 n.natAbs)) = some (.integer n) := by
  have digits : ∀ c ∈ Nat.toDigits 10 n.natAbs, c.isDigit := fun c => isDigit_of_mem_toDigits
  obtain ⟨least, most⟩ := sound
  have low : Int64.minValue.toInt = -(Int64.minValue.toInt.natAbs : Int) := by decide
  rw [wholeNumber, asDigits_encode digits, Decimal.readDigits_toDigits]
  by_cases negative : n < 0
  · have some : n.natAbs ≠ 0 := Int.natAbs_ne_zero.mpr negative.ne
    have fits : n.natAbs ≤ Int64.minValue.toInt.natAbs := by omega
    have same : -(n.natAbs : Int) = n := by omega
    simp only [negative, decide_true, Bool.true_and, beq_iff_eq, some, if_false, fits,
      if_true, same]
  · have fits : n.natAbs < UInt64.size := by omega
    have same : (n.natAbs : Int) = n := by omega
    simp [negative, fits, same]

theorem tokens_integer {n : Int} (sound : (integer n).Sound) {rest : List UInt8} (ends : Ends rest)
    (found : List Token) :
    tokens found (encode (toString n).toList ++ rest) = tokens (.number (some (.integer n)) :: found) rest := by
  have scanned := scanNumber_digits (decide (n < 0)) n.natAbs ends
  have digits : ∀ c ∈ Nat.toDigits 10 n.natAbs, c.isDigit := fun c => isDigit_of_mem_toDigits
  rw [wholeNumber_toDigits sound] at scanned
  have sign : (if n < 0 then ['-'] else []) = if decide (n < 0) = true then ['-'] else [] := by
    simp only [decide_eq_true_eq]
  rw [Decimal.toList_toString_int, sign]
  cases text : Nat.toDigits 10 n.natAbs with
  | nil => exact absurd text Nat.toDigits_ne_nil
  | cons c cs =>
    rw [text] at scanned digits
    exact tokens_number (digits c List.mem_cons_self) scanned

theorem tokens_float {x : Float} (sound : (float x).Sound) {rest : List UInt8} (ends : Ends rest)
    (found : List Token) :
    tokens found (encode (Decimal.json.render x).toList ++ rest) =
      tokens (.number (some (.float x)) :: found) rest := by
  obtain ⟨b, form⟩ := Decimal.Binary.isFinite_iff.mp sound
  obtain ⟨l, text, right, value⟩ := Decimal.layout_json b
  have same : (l.numeral b.negative).toFloat = x :=
    Decimal.Numeral.toFloat_eq form rfl ((l.value_numeral b.negative).trans value)
  have scanned := scanNumber_layout b.negative right ends
  have number : decimalNumber b.negative (encode l.whole) (encode l.fraction) (l.exponent.getD 0) =
      some (.float x) := by
    rw [decimalNumber, asDigits_encode right.whole, asDigits_encode right.fraction]
    change (if (l.numeral b.negative).toFloat.isFinite = true then
      some (Number.float (l.numeral b.negative).toFloat) else none) = _
    rw [same]
    exact if_pos sound
  rw [number] at scanned
  have rendered : (Decimal.json.render x).toList = (if b.negative then ['-'] else []) ++ l.text := by
    simp only [Decimal.Style.render, form, String.toList_append, text]
    cases b.negative <;> rfl
  rw [rendered]
  obtain ⟨c, cs, whole⟩ := List.exists_cons_of_ne_nil right.some
  have digit : c.isDigit := right.whole c (by rw [whole]; exact List.mem_cons_self)
  rw [Layout.text, whole] at scanned ⊢
  exact tokens_number digit scanned

theorem tokens_render {n : Number} (sound : n.Sound) {rest : List UInt8} (ends : Ends rest)
    (found : List Token) :
    tokens found (encode n.render.toList ++ rest) = tokens (.number (some n) :: found) rest := by
  cases n with
  | integer n => exact tokens_integer sound ends found
  | float x => exact tokens_float sound ends found

end Number

end BlockPlay.Json

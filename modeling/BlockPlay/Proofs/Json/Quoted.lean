import BlockPlay.Json.Token
import BlockPlay.Json.Writer
import BlockPlay.Proofs.Text.Bytes

/-!
Strings in a text. What is written for a character is scanned as parts that spell this character, so a quoted
string is one token, and spells the string.
-/
namespace BlockPlay.Json

open Text (encode)

/-- A control character without a short escape is written by its number. -/
def numbered (c : Char) : Bool :=
  c.toNat < 0x20 && c.toNat != 8 && c != '\t' && c != '\n' && c.toNat != 12 && c != '\r'

/-- The parts as which an escaped character is scanned. -/
def pieces (c : Char) : List Piece :=
  if numbered c then [.unit c.toNat] else (String.utf8EncodeChar c).map .byte

theorem lt_of_numbered {c : Char} (control : numbered c) : c.toNat < 0x20 := by
  simp only [numbered, Bool.and_eq_true, decide_eq_true_eq] at control
  exact control.1.1.1.1.1

section Scanning

variable (found : List Piece) (rest : List UInt8)

theorem scanString_plain {b : UInt8} (plain : 0x20 ≤ b.toNat) (unquoted : b ≠ 0x22) (unescaped : b ≠ 0x5C) :
    scanString found (b :: rest) = scanString (.byte b :: found) rest := by
  have high : ¬ b < 0x20 := by
    rw [UInt8.lt_iff_toNat_lt]
    exact Nat.not_lt.mpr plain
  rw [scanString.eq_def]
  split
  case h_1 same => cases same
  case h_2 same => cases same; exact absurd rfl unquoted
  case h_3 same | h_4 same | h_5 same | h_6 same => cases same; exact absurd rfl unescaped
  case h_7 same => cases same; rw [if_neg high]

theorem scanString_short {e b : UInt8} (short : shortEscape? e = some b) :
    scanString found (0x5C :: e :: rest) = scanString (.byte b :: found) rest := by
  rw [scanString.eq_def]
  split
  case h_1 same | h_2 same | h_6 same => cases same
  case h_3 same | h_4 same => cases same; cases short
  case h_5 same => cases same; rw [short]
  case h_7 escaped _ same => cases same; exact (escaped e rest rfl rfl).elim

theorem scanString_unit {a b : UInt8} {n : Nat} (unit : codeUnit? 0x30 0x30 a b = some n) :
    scanString found (0x5C :: 0x75 :: 0x30 :: 0x30 :: a :: b :: rest) = scanString (.unit n :: found) rest := by
  rw [scanString, unit]

theorem scanString_bytes {bytes : List UInt8}
    (plain : ∀ b ∈ bytes, 0x20 ≤ b.toNat ∧ b ≠ 0x22 ∧ b ≠ 0x5C) :
    scanString found (bytes ++ rest) = scanString ((bytes.map .byte).reverse ++ found) rest := by
  induction bytes generalizing found with
  | nil => rfl
  | cons b bytes ih =>
    obtain ⟨high, unquoted, unescaped⟩ := plain b List.mem_cons_self
    rw [List.cons_append, scanString_plain found _ high unquoted unescaped,
      ih _ fun b inside => plain b (List.mem_cons_of_mem _ inside)]
    simp

/-- The two digits in base sixteen of a control character. -/
theorem digits_numbered : ∀ n : Fin 0x20, ∃ a b,
    encode ((if n.val < 0x10 then ['0'] else []) ++ Text.hex n) = [a, b] ∧
      codeUnit? 0x30 0x30 a b = some n.val := by
  intro n
  refine ⟨UInt8.ofNat (Nat.digitChar (n / 16)).toNat, UInt8.ofNat (Nat.digitChar (n % 16)).toNat, ?_⟩
  revert n
  decide

theorem escape_numbered {c : Char} (control : numbered c) :
    scanString found (encode (escape c) ++ rest) = scanString (.unit c.toNat :: found) rest := by
  simp only [numbered, Bool.and_eq_true, decide_eq_true_eq, bne_iff_ne] at control
  obtain ⟨⟨⟨⟨⟨low, back⟩, tab⟩, line⟩, form⟩, carriage⟩ := control
  have quote : c ≠ '\x22' := by rintro rfl; exact absurd low (by decide)
  have slash : c ≠ '\\' := by rintro rfl; exact absurd low (by decide)
  obtain ⟨a, b, text, unit⟩ := digits_numbered ⟨c.toNat, low⟩
  rw [escape, if_neg quote, if_neg slash, if_neg back, if_neg tab, if_neg line, if_neg form, if_neg carriage,
    if_pos low, List.append_assoc, Text.encode_append, text]
  exact scanString_unit found rest unit

theorem scanString_pair {c : Char} (low : c.toNat < 0x80) {e : UInt8}
    (short : shortEscape? e = some (UInt8.ofNat c.toNat)) :
    scanString found (0x5C :: e :: rest) =
      scanString (((String.utf8EncodeChar c).map .byte).reverse ++ found) rest := by
  rw [scanString_short found rest short, Text.utf8EncodeChar_of_lt low]
  rfl

theorem plain_of_unescaped {c : Char} (high : 0x20 ≤ c.toNat) (unquoted : c ≠ '\x22') (unescaped : c ≠ '\\') :
    ∀ b ∈ String.utf8EncodeChar c, 0x20 ≤ b.toNat ∧ b ≠ 0x22 ∧ b ≠ 0x5C := by
  intro b inside
  by_cases low : c.toNat < 0x80
  · rw [Text.utf8EncodeChar_of_lt low, List.mem_singleton] at inside
    have same : b.toNat = c.toNat := by
      rw [inside, UInt8.toNat_ofNat_of_lt' (Nat.lt_trans low (by decide))]
    refine ⟨same ▸ high, ?_, ?_⟩
    · rintro rfl
      exact unquoted (Char.toNat_inj.mp same.symm)
    · rintro rfl
      exact unescaped (Char.toNat_inj.mp same.symm)
  · have beyond := Text.le_of_mem_utf8EncodeChar (Nat.le_of_not_lt low) inside
    refine ⟨by omega, ?_, ?_⟩
    · rintro rfl
      exact absurd beyond (by decide)
    · rintro rfl
      exact absurd beyond (by decide)

theorem scanString_escape (c : Char) :
    scanString found (encode (escape c) ++ rest) = scanString ((pieces c).reverse ++ found) rest := by
  by_cases control : numbered c
  · rw [pieces, if_pos control]
    exact escape_numbered found rest control
  · rw [pieces, if_neg control]
    unfold escape
    split
    next quote => exact scanString_pair found rest (by rw [quote]; decide) (by rw [quote]; rfl)
    split
    next slash => exact scanString_pair found rest (by rw [slash]; decide) (by rw [slash]; rfl)
    split
    next back => exact scanString_pair found rest (by rw [back]; decide) (by rw [back]; rfl)
    split
    next tab => exact scanString_pair found rest (by rw [tab]; decide) (by rw [tab]; rfl)
    split
    next line => exact scanString_pair found rest (by rw [line]; decide) (by rw [line]; rfl)
    split
    next form => exact scanString_pair found rest (by rw [form]; decide) (by rw [form]; rfl)
    split
    next carriage => exact scanString_pair found rest (by rw [carriage]; decide) (by rw [carriage]; rfl)
    split
    next low => exact absurd (by simp_all [numbered]) control
    next high =>
      rw [Text.encode_cons, Text.encode_nil, List.append_nil]
      exact scanString_bytes found rest (plain_of_unescaped (Nat.le_of_not_lt high) ‹_› ‹_›)

theorem scanString_text (cs : List Char) :
    scanString found (encode (cs.flatMap escape) ++ 0x22 :: rest) =
      (found.reverse ++ cs.flatMap pieces, .ok rest) := by
  induction cs generalizing found with
  | nil => simp [scanString]
  | cons c cs ih =>
    rw [List.flatMap_cons, Text.encode_append, List.append_assoc, scanString_escape, ih]
    simp

end Scanning

theorem spell_bytes (spelled bytes : List UInt8) (rest : List Piece) :
    spell none spelled (bytes.map .byte ++ rest) = spell none (bytes.reverse ++ spelled) rest := by
  induction bytes generalizing spelled with
  | nil => rfl
  | cons b bytes ih =>
    rw [List.map_cons, List.cons_append, spell, ih]
    simp

theorem spell_pieces (c : Char) (spelled : List UInt8) (rest : List Piece) :
    spell none spelled (pieces c ++ rest) = spell none ((String.utf8EncodeChar c).reverse ++ spelled) rest := by
  rw [pieces]
  split
  next control =>
    have low := lt_of_numbered control
    have first : trailing c.toNat = false := by
      simp only [trailing, Bool.and_eq_false_iff, decide_eq_false_iff_not]
      omega
    have second : leading c.toNat = false := by
      simp only [leading, Bool.and_eq_false_iff, decide_eq_false_iff_not]
      omega
    rw [List.singleton_append, spell.eq_def]
    simp only [first, second, Bool.false_eq_true, if_false, Char.ofNat_toNat]
  next => exact spell_bytes ..

theorem spell_text (cs : List Char) (spelled : List UInt8) :
    spell none spelled (cs.flatMap pieces) = .ok (spelled.reverse ++ encode cs) := by
  induction cs generalizing spelled with
  | nil => simp [spell]
  | cons c cs ih =>
    rw [List.flatMap_cons, spell_pieces, ih]
    simp

theorem ofPieces_text (s : String) : Literal.ofPieces (s.toList.flatMap pieces) none = ⟨.ok s, none⟩ := by
  simp only [Literal.ofPieces, spell_text, List.reverse_nil, List.nil_append, ← Text.bytes_eq,
    Text.fromUTF8?_bytes]

/-- A quoted string is one token. -/
theorem tokens_quote (s : String) (rest : List UInt8) (found : List Token) :
    tokens found (encode (quote s).toList ++ rest) = tokens (.string ⟨.ok s, none⟩ :: found) rest := by
  have token : stringToken (encode (s.toList.flatMap escape) ++ 0x22 :: rest) =
      (.string ⟨.ok s, none⟩, rest) := by
    rw [stringToken, scanString_text]
    simp only [List.reverse_nil, List.nil_append, ofPieces_text]
  have text : encode (quote s).toList ++ rest = 0x22 :: (encode (s.toList.flatMap escape) ++ 0x22 :: rest) := by
    have mark : String.utf8EncodeChar '\x22' = [0x22] := rfl
    rw [quote, String.toList_ofList, Text.encode_cons, Text.encode_append, Text.encode_cons, mark]
    simp
  rw [text]
  exact tokens_step rfl token

end BlockPlay.Json

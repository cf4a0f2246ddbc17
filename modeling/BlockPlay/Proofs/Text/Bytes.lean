/-!
The bytes of a text. Every text is got back from its bytes, a character of ASCII is one byte, and any other
one is made up of bytes beyond ASCII.
-/
namespace BlockPlay.Text

def encode (cs : List Char) : List UInt8 := cs.flatMap String.utf8EncodeChar

def bytes (s : String) : List UInt8 := s.toUTF8.data.toList

theorem bytes_eq (s : String) : bytes s = encode s.toList := by
  rw [bytes, String.toUTF8, ← String.utf8Encode_toList, List.utf8Encode, List.data_toByteArray]
  rfl

theorem bytes_ofList (cs : List Char) : bytes (String.ofList cs) = encode cs := by
  rw [bytes_eq, String.toList_ofList]

@[simp] theorem encode_nil : encode [] = [] := rfl

@[simp] theorem encode_cons (c : Char) (cs : List Char) :
    encode (c :: cs) = String.utf8EncodeChar c ++ encode cs := rfl

@[simp] theorem encode_append (cs ds : List Char) : encode (cs ++ ds) = encode cs ++ encode ds :=
  List.flatMap_append

@[simp] theorem bytes_append (s t : String) : bytes (s ++ t) = bytes s ++ bytes t := by
  simp only [bytes_eq, String.toList_append, encode_append]

theorem encode_ne_nil {cs : List Char} (some : cs ≠ []) : encode cs ≠ [] := by
  cases cs with
  | nil => exact absurd rfl some
  | cons c cs => exact List.append_ne_nil_of_left_ne_nil String.utf8EncodeChar_ne_nil _

/-- A text is got back from its bytes. -/
theorem fromUTF8?_bytes (s : String) : String.fromUTF8? ⟨(bytes s).toArray⟩ = some s := by
  have whole : (⟨(bytes s).toArray⟩ : ByteArray) = s.toByteArray := by
    rw [bytes, Array.toArray_toList, String.toUTF8]
  rw [whole, String.fromUTF8?, dif_pos s.isValidUTF8]
  rfl

theorem utf8EncodeChar_of_lt {c : Char} (low : c.toNat < 0x80) :
    String.utf8EncodeChar c = [UInt8.ofNat c.toNat] := by
  have ascii : c.val.toNat ≤ 127 := Nat.le_of_lt_succ low
  rw [String.utf8EncodeChar, if_pos ascii]
  rfl

theorem le_of_mem_utf8EncodeChar {c : Char} (high : 0x80 ≤ c.toNat) {b : UInt8}
    (inside : b ∈ String.utf8EncodeChar c) : 0x80 ≤ b.toNat := by
  have beyond : ¬ c.val.toNat ≤ 127 := Nat.not_le_of_lt high
  rw [String.utf8EncodeChar, if_neg beyond] at inside
  split at inside
  · simp only [List.mem_cons, List.not_mem_nil, or_false] at inside
    rcases inside with rfl | rfl <;> rw [UInt8.toNat_ofNat'] <;> omega
  · split at inside
    · simp only [List.mem_cons, List.not_mem_nil, or_false] at inside
      rcases inside with rfl | rfl | rfl <;> rw [UInt8.toNat_ofNat'] <;> omega
    · simp only [List.mem_cons, List.not_mem_nil, or_false] at inside
      rcases inside with rfl | rfl | rfl | rfl <;> rw [UInt8.toNat_ofNat'] <;> omega

theorem encode_of_lt {cs : List Char} (low : ∀ c ∈ cs, c.toNat < 0x80) :
    encode cs = cs.map fun c => UInt8.ofNat c.toNat := by
  induction cs with
  | nil => rfl
  | cons c cs ih =>
    rw [encode_cons, utf8EncodeChar_of_lt (low c List.mem_cons_self),
      ih fun d inside => low d (List.mem_cons_of_mem c inside)]
    rfl

end BlockPlay.Text

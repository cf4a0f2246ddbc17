import BlockPlay.Decimal.Style
import BlockPlay.Proofs.Decimal.Shortest

/-!
The parts of a written number. What the format of documents writes consists of digits, a point with digits
behind it, and an exponent, and the numeral with these parts stands for the number that was written.
-/
namespace BlockPlay.Decimal

theorem readDigits_eq (start : Nat) (ds : List Char) : readDigits start ds = Nat.ofDigitChars 10 ds start := by
  rw [Nat.ofDigitChars_eq_foldl, readDigits]

theorem readDigits_append (start : Nat) (ds es : List Char) :
    readDigits start (ds ++ es) = readDigits (readDigits start ds) es := by
  simp only [readDigits_eq, Nat.ofDigitChars_append]

theorem readDigits_toDigits (n : Nat) : readDigits 0 (Nat.toDigits 10 n) = n := by
  rw [readDigits_eq, Nat.ofDigitChars_ten_toDigits]

theorem isDigit_of_mem_toDigits {n : Nat} {c : Char} (inside : c ∈ Nat.toDigits 10 n) : c.isDigit :=
  Nat.isDigit_of_mem_toDigits (by decide) (by decide) inside

theorem isDigit_of_mem_zeros {n : Nat} {c : Char} (inside : c ∈ List.replicate n '0') : c.isDigit := by
  rw [List.eq_of_mem_replicate inside]
  rfl

/-- No zero leads the digits of a positive number. -/
theorem head?_toDigits {n : Nat} (positive : 0 < n) : (Nat.toDigits 10 n).head? ≠ some '0' := by
  induction n using Nat.strongRecOn with
  | ind n ih =>
    rw [Nat.toDigits_eq_if (by decide)]
    split
    next one =>
      have digit : ∀ n : Fin 10, 0 < n.val → Nat.digitChar n ≠ '0' := by decide
      exact fun zero => digit ⟨n, one⟩ positive (Option.some.inj zero)
    next more =>
      rw [List.head?_append_of_ne_nil _ Nat.toDigits_ne_nil]
      exact ih (n / 10) (by omega) (by omega)

theorem eq_zero_of_head? {n : Nat} (zero : (Nat.toDigits 10 n).head? = some '0') : n = 0 :=
  Nat.eq_zero_of_not_pos fun positive => head?_toDigits positive zero

/-- A number as it is written: digits, digits behind the point, and an exponent behind its sign. -/
structure Layout where
  whole : List Char
  fraction : List Char
  exponent : Option Int

namespace Layout

def exponentText (e : Int) : List Char :=
  'e' :: (if 0 ≤ e then '+' else '-') :: Nat.toDigits 10 e.natAbs

def text (l : Layout) : List Char :=
  l.whole ++ (if l.fraction = [] then [] else '.' :: l.fraction) ++ l.exponent.elim [] exponentText

/-- The point or the exponent tells that a number need not be whole. -/
structure Sound (l : Layout) : Prop where
  whole : ∀ c ∈ l.whole, c.isDigit
  fraction : ∀ c ∈ l.fraction, c.isDigit
  some : l.whole ≠ []
  lone : l.whole.head? = .some '0' → l.whole.length = 1
  marked : l.fraction ≠ [] ∨ l.exponent.isSome

def numeral (l : Layout) (negative : Bool) : Numeral :=
  .ofParts negative l.whole l.fraction (l.exponent.getD 0)

/-- The number that is written. -/
def value (l : Layout) : ℚ :=
  readDigits 0 (l.whole ++ l.fraction) * 10 ^ (l.exponent.getD 0 - l.fraction.length)

theorem value_numeral (l : Layout) (negative : Bool) :
    ((l.numeral negative).digits * 10 ^ (l.numeral negative).exponent : ℚ) = l.value := by
  rw [value, readDigits_append]
  rfl

end Layout

theorem toList_zeros (n : Nat) : (zeros n).toList = List.replicate n '0' := by
  simp [zeros]

theorem toList_toString (n : Nat) : (toString n).toList = Nat.toDigits 10 n := by
  rw [Nat.toString_eq_ofList_toDigits, String.toList_ofList]

theorem toList_toString_int (n : Int) :
    (toString n).toList = (if n < 0 then ['-'] else []) ++ Nat.toDigits 10 n.natAbs := by
  cases n with
  | ofNat n => exact toList_toString n
  | negSucc n =>
    change ("-" ++ toString (n + 1)).toList = _
    rw [String.toList_append, toList_toString, if_pos (Int.negSucc_lt_zero n)]
    rfl

theorem toList_take (s : String) (n : Nat) : (s.take n).toString.toList = s.toList.take n := by
  change (s.toSlice.take n).copy.toList = _
  rw [String.Slice.toList_copy_take, String.copy_toSlice]

theorem toList_drop (s : String) (n : Nat) : (s.drop n).toString.toList = s.toList.drop n := by
  change (s.toSlice.drop n).copy.toList = _
  rw [String.Slice.toList_copy_drop, String.copy_toSlice]

theorem length_toString (n : Nat) : (toString n).length = (Nat.toDigits 10 n).length := by
  rw [Nat.toString_eq_ofList_toDigits, String.length_ofList]

namespace Digits

variable {d : Digits}

/-- Zeros stand between the digits and the point. -/
theorem layout_whole (whole : d.digits = 0 → d.exponent = 0) (above : 0 ≤ d.exponent) :
    ∃ l : Layout, (toString d.digits ++ zeros d.exponent.toNat ++ ".0").toList = l.text ∧
      l.Sound ∧ l.value = d.value := by
  refine ⟨⟨Nat.toDigits 10 d.digits ++ List.replicate d.exponent.toNat '0', ['0'], none⟩, ?_, ?_, ?_⟩
  · simp only [String.toList_append, toList_toString, toList_zeros, Layout.text]
    simp
  · constructor
    case whole =>
      intro c inside
      exact (List.mem_append.mp inside).elim isDigit_of_mem_toDigits isDigit_of_mem_zeros
    case fraction => exact List.forall_mem_singleton.mpr rfl
    case some => exact List.append_ne_nil_of_left_ne_nil Nat.toDigits_ne_nil _
    case lone =>
      rw [List.head?_append_of_ne_nil _ Nat.toDigits_ne_nil]
      intro zero
      have none := eq_zero_of_head? zero
      simp [none, whole none]
    case marked => simp
  · have exponent : (10 : ℚ) ^ d.exponent = 10 ^ d.exponent.toNat := by
      rw [← zpow_natCast, Int.toNat_of_nonneg above]
    have digits : readDigits 0 (Nat.toDigits 10 d.digits ++ List.replicate d.exponent.toNat '0' ++ ['0']) =
        10 * (10 ^ d.exponent.toNat * d.digits) := by
      rw [readDigits_append, readDigits_append, readDigits_toDigits, readDigits_eq d.digits,
        Nat.ofDigitChars_replicate_zero]
      rfl
    have tenth : (10 : ℚ) ^ (0 - 1 : ℤ) = 1 / 10 := by norm_num
    simp only [Layout.value, digits, Digits.value, exponent, List.length_singleton, Option.getD_none,
      Nat.cast_one, tenth]
    push_cast
    ring

/-- The point stands between the digits. -/
theorem layout_inside {places : Nat} (inside : places < (Nat.toDigits 10 d.digits).length) (some : 0 < places)
    (exponent : d.exponent = -places) :
    ∃ l : Layout, (((toString d.digits).take ((toString d.digits).length - places)).toString ++ "." ++
        ((toString d.digits).drop ((toString d.digits).length - places)).toString).toList = l.text ∧
      l.Sound ∧ l.value = d.value := by
  rw [length_toString]
  set n := (Nat.toDigits 10 d.digits).length - places with before
  have behind : ((Nat.toDigits 10 d.digits).drop n).length = places := by
    rw [List.length_drop]
    omega
  have points : (Nat.toDigits 10 d.digits).drop n ≠ [] := List.ne_nil_of_length_pos (by omega)
  refine ⟨⟨(Nat.toDigits 10 d.digits).take n, (Nat.toDigits 10 d.digits).drop n, none⟩, ?_, ?_, ?_⟩
  · simp only [String.toList_append, toList_take, toList_drop, toList_toString, Layout.text]
    simp [points]
  · constructor
    case whole => exact fun c inside => isDigit_of_mem_toDigits (List.mem_of_mem_take inside)
    case fraction => exact fun c inside => isDigit_of_mem_toDigits (List.mem_of_mem_drop inside)
    case some => exact List.ne_nil_of_length_pos (by rw [List.length_take]; omega)
    case lone =>
      rw [List.head?_take, if_neg (by omega)]
      intro zero
      rw [eq_zero_of_head? zero, Nat.toDigits_zero, List.length_singleton] at inside
      omega
    case marked => exact .inl points
  · simp only [Layout.value, List.take_append_drop, readDigits_toDigits, behind, Digits.value, exponent,
      Option.getD_none, zero_sub]

/-- Zeros stand between the point and the digits. -/
theorem layout_before {places : Nat} (before : (Nat.toDigits 10 d.digits).length ≤ places)
    (exponent : d.exponent = -places) :
    ∃ l : Layout, ("0." ++ zeros (places - (toString d.digits).length) ++ toString d.digits).toList = l.text ∧
      l.Sound ∧ l.value = d.value := by
  rw [length_toString]
  set n := places - (Nat.toDigits 10 d.digits).length with gap
  have points : List.replicate n '0' ++ Nat.toDigits 10 d.digits ≠ [] :=
    List.append_ne_nil_of_right_ne_nil _ Nat.toDigits_ne_nil
  refine ⟨⟨['0'], List.replicate n '0' ++ Nat.toDigits 10 d.digits, none⟩, ?_, ?_, ?_⟩
  · simp only [String.toList_append, toList_toString, toList_zeros, Layout.text, if_neg points]
    simp
  · constructor
    case whole => exact List.forall_mem_singleton.mpr rfl
    case fraction =>
      intro c inside
      exact (List.mem_append.mp inside).elim isDigit_of_mem_zeros isDigit_of_mem_toDigits
    case some => simp
    case lone => exact fun _ => rfl
    case marked => exact .inl points
  · have digits : readDigits 0 (['0'] ++ (List.replicate n '0' ++ Nat.toDigits 10 d.digits)) = d.digits := by
      have zero : readDigits 0 ['0'] = 0 := rfl
      rw [readDigits_append, readDigits_append, zero, readDigits_eq 0 (List.replicate n '0'),
        Nat.ofDigitChars_replicate_zero, Nat.mul_zero, readDigits_toDigits]
    have behind : (List.replicate n '0' ++ Nat.toDigits 10 d.digits).length = places := by
      rw [List.length_append, List.length_replicate]
      omega
    simp only [Layout.value, digits, behind, Digits.value, exponent, Option.getD_none, zero_sub]

theorem layout_positional (whole : d.digits = 0 → d.exponent = 0) :
    ∃ l : Layout, (d.positional true).toList = l.text ∧ l.Sound ∧ l.value = d.value := by
  rw [positional]
  split
  next above => exact layout_whole whole above
  next below =>
    have exponent : d.exponent = -((-d.exponent).toNat : ℤ) := by omega
    dsimp only
    split
    next inside =>
      rw [length_toString] at inside
      exact layout_inside inside (by omega) exponent
    next before =>
      rw [length_toString, Nat.not_lt] at before
      exact layout_before before exponent

theorem layout_scientific (d : Digits) :
    ∃ l : Layout, (d.scientific (d.exponent + (toString d.digits).length - 1) true).toList = l.text ∧
      l.Sound ∧ l.value = d.value := by
  rw [length_toString]
  set leading := d.exponent + (Nat.toDigits 10 d.digits).length - 1 with scale
  have some : 0 < (Nat.toDigits 10 d.digits).length := Nat.length_toDigits_pos
  refine ⟨⟨(Nat.toDigits 10 d.digits).take 1, (Nat.toDigits 10 d.digits).drop 1, .some leading⟩, ?_, ?_, ?_⟩
  · have point : (if (Nat.toDigits 10 d.digits).length ≤ 1 then "" else ".").toList ++
        (Nat.toDigits 10 d.digits).drop 1 =
        if (Nat.toDigits 10 d.digits).drop 1 = [] then [] else '.' :: (Nat.toDigits 10 d.digits).drop 1 := by
      simp only [List.drop_eq_nil_iff]
      split
      next one => simp [List.drop_of_length_le one]
      next => rfl
    have exponent :
        (if (true && decide (0 ≤ leading)) = true then "+" else "").toList ++ (toString leading).toList =
          (if 0 ≤ leading then '+' else '-') :: Nat.toDigits 10 leading.natAbs := by
      rw [toList_toString_int]
      by_cases above : 0 ≤ leading
      · simp [above, Int.not_lt.mpr above]
      · simp [above, Int.not_le.mp above]
    simp only [scientific, length_toString, String.toList_append, toList_take, toList_drop, toList_toString,
      Layout.text, Layout.exponentText, Option.elim_some, ← point, ← exponent, List.append_assoc]
    rfl
  · constructor
    case whole => exact fun c inside => isDigit_of_mem_toDigits (List.mem_of_mem_take inside)
    case fraction => exact fun c inside => isDigit_of_mem_toDigits (List.mem_of_mem_drop inside)
    case some => exact List.ne_nil_of_length_pos (by rw [List.length_take]; omega)
    case lone =>
      intro _
      rw [List.length_take]
      omega
    case marked => exact .inr rfl
  · have places : leading - ((Nat.toDigits 10 d.digits).drop 1).length = d.exponent := by
      rw [List.length_drop]
      omega
    simp only [Layout.value, List.take_append_drop, readDigits_toDigits, Option.getD_some, places, Digits.value]

end Digits

/-- What is written of a form in the format of documents. -/
theorem layout_json (b : Binary) : ∃ l : Layout, (json.magnitude b).toList = l.text ∧ l.Sound ∧
    l.value = (b.shortest .toEven).value := by
  have whole : (b.shortest .toEven).digits = 0 → (b.shortest .toEven).exponent = 0 := by
    intro none
    rcases Nat.eq_zero_or_pos b.mantissa with zero | positive
    · rw [Binary.shortest, if_pos zero]
    · have more := (Binary.nearest_shortest positive .toEven).pos positive
      rw [Digits.value, none, Nat.cast_zero, zero_mul, zero_div] at more
      exact absurd more (lt_irrefl 0)
  rw [Style.magnitude]
  split
  next => exact Digits.layout_positional whole
  next => exact Digits.layout_scientific _

end BlockPlay.Decimal

import BlockPlay.Proofs.Json.Document

/-!
What is read in a text is sound, whatever the text: its numbers are in range, and a string that spells
something has no flaw.
-/
namespace BlockPlay.Json

/-- A string with a flaw spells nothing. -/
def Literal.Sound (s : Literal) : Prop := ∀ text, s.spelled = .ok text → s.flaw = none

def Token.Sound : Token → Prop
  | .number (some n) => n.Sound
  | .string s => s.Sound
  | _ => True

namespace Tree

mutual

def Sound : Tree → Prop
  | .number (some n) => n.Sound
  | .string s => s.Sound
  | .array items _ => AllSound items
  | .object members _ => MembersSound members
  | _ => True

def AllSound : List Tree → Prop
  | [] => True
  | t :: rest => t.Sound ∧ AllSound rest

def MembersSound : List (Literal × Tree) → Prop
  | [] => True
  | (key, t) :: rest => key.Sound ∧ t.Sound ∧ MembersSound rest

end

theorem allSound_iff {items : List Tree} : AllSound items ↔ ∀ t ∈ items, t.Sound := by
  induction items with
  | nil => simp [AllSound]
  | cons t rest ih => simp [AllSound, ih]

theorem membersSound_iff {members : List (Literal × Tree)} :
    MembersSound members ↔ ∀ m ∈ members, m.1.Sound ∧ m.2.Sound := by
  induction members with
  | nil => simp [MembersSound]
  | cons m rest ih => simp [MembersSound, ih, and_assoc]

end Tree

section Numbers

theorem wholeNumber_sound {negative : Bool} {whole : List UInt8} {n : Number}
    (scanned : wholeNumber negative whole = some n) : n.Sound := by
  have least : Int64.minValue.toInt = -(Int64.minValue.toInt.natAbs : Int) := by decide
  have room : 0 < UInt64.size := by decide
  simp only [wholeNumber] at scanned
  generalize Decimal.readDigits 0 (asDigits whole) = m at scanned
  split at scanned
  next =>
    cases scanned
    change Float.isFinite (-0.0) = true
    decide
  next =>
    split at scanned
    next fits =>
      cases scanned
      simp only [Bool.and_eq_true, decide_eq_true_eq] at fits
      exact ⟨by omega, by omega⟩
    next =>
      split at scanned
      next fits =>
        cases scanned
        simp only [Bool.and_eq_true, decide_eq_true_eq] at fits
        exact ⟨by omega, by omega⟩
      next =>
        split at scanned
        next finite =>
          cases scanned
          exact finite
        next => cases scanned

theorem decimalNumber_sound {negative : Bool} {whole fraction : List UInt8} {exponent : Int} {n : Number}
    (scanned : decimalNumber negative whole fraction exponent = some n) : n.Sound := by
  simp only [decimalNumber] at scanned
  split at scanned
  next finite =>
    cases scanned
    exact finite
  next => cases scanned

theorem scanNumber_sound {negative : Bool} {bytes after : List UInt8} {n : Number}
    (scanned : scanNumber negative bytes = .ok (some n, after)) : n.Sound := by
  simp only [scanNumber] at scanned
  split at scanned
  next => cases scanned
  next =>
    split at scanned
    next => cases scanned
    next =>
      split at scanned
      next => cases scanned
      next =>
        split at scanned
        next => cases scanned
        next =>
          split at scanned
          next => exact wholeNumber_sound (Prod.mk.inj (Except.ok.inj scanned)).1
          next => exact decimalNumber_sound (Prod.mk.inj (Except.ok.inj scanned)).1

end Numbers

theorem spell_of_flaw (f : Flaw) (spelled : List UInt8) (pieces : List Piece) (bytes : List UInt8) :
    spell (some f) spelled pieces ≠ .ok bytes := by
  fun_induction spell (some f) spelled pieces <;> simp_all

theorem Literal.sound_ofPieces (pieces : List Piece) (flaw : Option Flaw) : (ofPieces pieces flaw).Sound := by
  intro text spelled
  cases flaw with
  | none => rfl
  | some f =>
    simp only [ofPieces] at spelled
    split at spelled
    next => cases spelled
    next bytes spells => exact absurd spells (spell_of_flaw f [] pieces bytes)

section Tokens

theorem numberToken_sound (negative : Bool) (bytes : List UInt8) : (numberToken negative bytes).1.Sound := by
  rw [numberToken]
  split
  next n after scanned =>
    cases n with
    | none => trivial
    | some n => exact scanNumber_sound scanned
  next => trivial
  next => trivial

theorem stringToken_sound (rest : List UInt8) : (stringToken rest).1.Sound := by
  rw [stringToken]
  split <;> exact @Literal.sound_ofPieces _ _

theorem wordToken_sound {token : Token} (sound : token.Sound) (letters rest : List UInt8) :
    (wordToken token letters rest).1.Sound := by
  rw [wordToken]
  split
  next => exact sound
  next => trivial

theorem scanToken_sound (b : UInt8) (rest : List UInt8) : (scanToken b rest).1.Sound := by
  unfold scanToken
  split
  case h_7 => exact stringToken_sound rest
  case h_8 | h_9 | h_10 => exact wordToken_sound (by trivial) ..
  case h_11 => exact numberToken_sound true rest
  case h_12 =>
    split
    next => exact numberToken_sound false _
    next => trivial
  all_goals trivial

theorem tokens_sound {found : List Token} (bytes : List UInt8) (sound : ∀ t ∈ found, t.Sound) :
    ∀ t ∈ tokens found bytes, t.Sound := by
  fun_induction tokens found bytes with
  | case1 found => simpa using sound
  | case2 found b rest space ih => exact ih sound
  | case3 found b rest solid _ ih =>
    refine ih fun t inside => ?_
    rcases List.mem_cons.mp inside with rfl | old
    · exact scanToken_sound b rest
    · exact sound t old

end Tokens

section Building

def Open.Sound : Open → Prop
  | .array items => ∀ t ∈ items, t.Sound
  | .object members key => key.Sound ∧ ∀ m ∈ members, m.1.Sound ∧ m.2.Sound

def Expect.Sound : Expect → Prop
  | .value | .itemOrClose => True
  | .keyOrClose members | .afterMember members => ∀ m ∈ members, m.1.Sound ∧ m.2.Sound
  | .colon members key => key.Sound ∧ ∀ m ∈ members, m.1.Sound ∧ m.2.Sound
  | .afterItem items => ∀ t ∈ items, t.Sound
  | .nothing t => t.Sound

theorem Literal.sound_absent (f : Flaw) : (absent f).Sound := nofun

namespace Tree

variable {t : Tree} {items : List Tree} {members : List (Literal × Tree)} {key : Literal} {outer : List Open}

theorem sound_array (sound : ∀ t ∈ items, t.Sound) (flaw : Option Flaw) : (array items.reverse flaw).Sound :=
  allSound_iff.mpr fun t inside => sound t (List.mem_reverse.mp inside)

theorem sound_object (sound : ∀ m ∈ members, m.1.Sound ∧ m.2.Sound) (flaw : Option Flaw) :
    (object members.reverse flaw).Sound :=
  membersSound_iff.mpr fun m inside => sound m (List.mem_reverse.mp inside)

theorem sound_member (known : key.Sound) (sound : t.Sound) (others : ∀ m ∈ members, m.1.Sound ∧ m.2.Sound) :
    ∀ m ∈ (key, t) :: members, m.1.Sound ∧ m.2.Sound :=
  List.forall_mem_cons.mpr ⟨⟨known, sound⟩, others⟩

theorem sound_ofToken {token : Token} (sound : token.Sound) : (ofToken token).Sound := by
  cases token with
  | number n => cases n <;> exact sound
  | string s => exact sound
  | _ => trivial

theorem sound_enclose (sound : t.Sound) (around : ∀ o ∈ outer, o.Sound) : (enclose t outer).Sound := by
  induction outer generalizing t with
  | nil => exact sound
  | cons o outer ih =>
    obtain ⟨first, later⟩ := List.forall_mem_cons.mp around
    cases o with
    | array items => exact ih (sound_array (List.forall_mem_cons.mpr ⟨sound, first⟩) none) later
    | object members key => exact ih (sound_object (sound_member first.1 sound first.2) none) later

theorem sound_close (sound : t.Sound) (around : ∀ o ∈ outer, o.Sound) :
    (close t outer).1.Sound ∧ ∀ o ∈ (close t outer).2, o.Sound := by
  cases outer with
  | nil => exact ⟨sound, around⟩
  | cons o outer =>
    obtain ⟨first, later⟩ := List.forall_mem_cons.mp around
    cases o with
    | array items => exact ⟨List.forall_mem_cons.mpr ⟨sound, first⟩, later⟩
    | object members key => exact ⟨sound_member first.1 sound first.2, later⟩

theorem sound_atEnd {expect : Expect} (sound : expect.Sound) (around : ∀ o ∈ outer, o.Sound) :
    (atEnd outer expect).tree.Sound := by
  cases expect with
  | value => exact sound_enclose trivial around
  | itemOrClose => exact sound_enclose trivial around
  | keyOrClose members =>
    cases members with
    | nil => exact sound_enclose trivial around
    | cons m members =>
      refine sound_enclose (sound_object ?_ none) around
      exact sound_member (t := .missing) (Literal.sound_absent _) trivial sound
  | colon members key =>
    exact sound_enclose (sound_object (sound_member (t := .missing) sound.1 trivial sound.2) none) around
  | afterItem items => exact sound_enclose (sound_array sound _) around
  | afterMember members => exact sound_enclose (sound_object sound _) around
  | nothing t => exact sound

theorem sound_build {expect : Expect} (tokens : List Token) (sound : expect.Sound)
    (around : ∀ o ∈ outer, o.Sound) (scanned : ∀ t ∈ tokens, t.Sound) :
    (build expect outer tokens).tree.Sound := by
  -- A token goes on with what is expected next, closes what is open, or cuts the tree off; each keeps the
  -- collected parts sound.
  induction tokens generalizing expect outer with
  | nil => exact sound_atEnd sound around
  | cons token rest ih =>
    obtain ⟨first, later⟩ := List.forall_mem_cons.mp scanned
    have alone := sound_ofToken first
    have closed {t : Tree} (whole : t.Sound) :
        (build (close t outer).1 (close t outer).2 rest).tree.Sound :=
      ih (sound_close whole around).1 (sound_close whole around).2 later
    have cut {t : Tree} (part : t.Sound) : (enclose t outer).Sound := sound_enclose part around
    cases expect with
    | value =>
      rw [build]
      dsimp only
      split
      next => exact ih trivial around later
      next => exact ih (List.forall_mem_nil _) around later
      next => exact closed alone
      next => exact closed alone
      next => exact closed alone
      next => exact closed alone
      next => exact cut alone
    | itemOrClose =>
      have one : ∀ t ∈ [ofToken token], t.Sound := List.forall_mem_singleton.mpr alone
      have inside : ∀ o ∈ Open.array [] :: outer, o.Sound :=
        List.forall_mem_cons.mpr ⟨List.forall_mem_nil _, around⟩
      rw [build.eq_def]
      dsimp only
      split
      next => exact closed trivial
      next => exact ih trivial inside later
      next => exact ih (List.forall_mem_nil _) inside later
      next => exact ih one around later
      next => exact ih one around later
      next => exact ih one around later
      next => exact ih one around later
      next => exact cut (sound_array one none)
    | keyOrClose members =>
      have absent (f : Flaw) := sound_member (t := .missing) (Literal.sound_absent f) trivial sound
      rw [build.eq_def]
      dsimp only
      split
      next => exact ih ⟨first, sound⟩ around later
      next => exact cut (sound_object (sound_member (t := .broken _) first trivial sound) none)
      next => exact closed trivial
      next => exact cut trivial
      next => exact cut (sound_object (absent .malformed) none)
    | colon members key =>
      rw [build.eq_def]
      dsimp only
      split
      next => exact ih trivial (List.forall_mem_cons.mpr ⟨sound, around⟩) later
      next => exact cut (sound_object (sound_member (t := .broken _) sound.1 trivial sound.2) none)
    | afterItem items =>
      rw [build.eq_def]
      dsimp only
      split
      next => exact ih trivial (List.forall_mem_cons.mpr ⟨sound, around⟩) later
      next => exact closed (sound_array sound none)
      next => exact cut (sound_array sound _)
    | afterMember members =>
      rw [build.eq_def]
      dsimp only
      split
      next => exact ih sound around later
      next => exact closed (sound_object sound none)
      next => exact cut (sound_object sound _)
    | nothing t => exact sound

end Tree

end Building

/-- Every text comes to a sound tree. -/
theorem Document.sound_ofBytes (bytes : List UInt8) : (ofBytes bytes).tree.Sound :=
  Tree.sound_build _ trivial (List.forall_mem_nil _) (tokens_sound bytes (List.forall_mem_nil _))

end BlockPlay.Json

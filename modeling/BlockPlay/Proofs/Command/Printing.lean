import BlockPlay.Command.Perform
import BlockPlay.Compile.Validate
import BlockPlay.Proofs.Program.Reading

/-!
What the command `compile` prints. The text of a program that may run is read as this program, on one line or
on many, and that of a program with a number that is not finite is read as none.
-/
namespace BlockPlay

open Json (Value)

namespace Limits

theorem finite_of_checkLeaf {block : BlockId} {action : Action}
    (valid : checkLeaf block action = .ok ()) : action.Finite := by
  cases action with
  | turn d x =>
    simp only [checkLeaf] at valid
    split at valid
    next finite => exact finite
    next => cases valid
  | width x =>
    simp only [checkLeaf] at valid
    split at valid
    next => cases valid
    next sound => simp_all [Action.Finite]
  | _ => trivial

mutual

theorem finite_of_check {limits : Limits} : (op : Op) → limits.check op = .ok () → op.Finite
  | .leaf block action, valid => finite_of_checkLeaf valid
  | .loop block count body, valid => by
    rw [check] at valid
    split at valid
    next => cases valid
    next => exact finite_of_checkAll body valid

theorem finite_of_checkAll {limits : Limits} : (ops : List Op) → limits.checkAll ops = .ok () →
    Op.AllFinite ops
  | [], _ => trivial
  | op :: ops, valid => by
    rw [checkAll] at valid
    split at valid
    next first => exact ⟨finite_of_check op first, finite_of_checkAll ops valid⟩
    next => cases valid

end

theorem finite_of_judged {ops : List Op} (finite : Op.AllFinite (judged ops)) : Op.AllFinite ops := by
  cases ops with
  | nil => trivial
  | cons op ops =>
    rw [judged] at finite
    split at finite
    next starts =>
      refine ⟨?_, finite⟩
      cases op with
      | leaf block action =>
        cases action with
        | start => trivial
        | _ => cases starts
      | loop => cases starts
    next => exact finite

end Limits

namespace Program

/-- The numbers in the program are finite. -/
def Finite (p : Program) : Prop := Op.AllFinite p.ops

/-- The text of a program, on one line or laid out. -/
def printed (p : Program) (pretty : Bool) : String :=
  if pretty then p.toValue.renderPretty else p.toValue.render

theorem document_printed (p : Program) (pretty : Bool) {spaces : List UInt8}
    (blank : ∀ b ∈ spaces, Json.isSpace b) :
    Json.Document.ofBytes (Text.bytes (p.printed pretty) ++ spaces) = ⟨p.toValue.tree, false⟩ := by
  have sound : p.toValue.Sound := Op.sound_toValues p.ops
  cases pretty with
  | false => exact (Value.scanned_render sound).document blank
  | true => exact (Value.scanned_renderPretty sound).document blank

theorem ofBytes_eq (p : Program) (pretty : Bool) {spaces : List UInt8} (blank : ∀ b ∈ spaces, Json.isSpace b) :
    Program.ofBytes (Text.bytes (p.printed pretty) ++ spaces) =
      (Json.Tree.readItems ⟨.text, some 126⟩ (Json.Tree.anySize Op.read) (Value.trees (Op.toValues p.ops))
        fun _ inside => @Json.Tree.item_small _ none _ inside).map Program.mk := by
  have entered : Json.Context.text.enter = .ok ⟨.text, some 126⟩ := rfl
  rw [Program.ofBytes, document_printed p pretty blank, Json.Document.read_whole, Program.read, toValue,
    Op.readList_trees entered]

theorem ofBytes_printed {p : Program} (shallow : p.depth ≤ 63) (finite : p.Finite) (pretty : Bool)
    {spaces : List UInt8} (blank : ∀ b ∈ spaces, Json.isSpace b) :
    Program.ofBytes (Text.bytes (p.printed pretty) ++ spaces) = .ok p := by
  have allows : (⟨.text, some 126⟩ : Json.Context).Allows (2 * Op.depths p.ops) := by
    rintro _ ⟨⟩
    exact Nat.mul_le_mul_left 2 shallow
  rw [ofBytes_eq p pretty blank, Op.readItems_toValues p.ops allows finite]
  rfl

theorem ofBytes_infinite {p : Program} (infinite : ¬ p.Finite) (pretty : Bool) {spaces : List UInt8}
    (blank : ∀ b ∈ spaces, Json.isSpace b) :
    ∃ problem, Program.ofBytes (Text.bytes (p.printed pretty) ++ spaces) = .error problem := by
  obtain ⟨problem, fails⟩ := Op.readItems_infinite ⟨.text, some 126⟩ p.ops infinite
    fun _ inside => @Json.Tree.item_small _ none _ inside
  rw [ofBytes_eq p pretty blank, fails]
  exact ⟨problem, rfl⟩

theorem sound_of_validate {p : Program} (valid : validate p = .ok ()) : p.depth ≤ 33 ∧ p.Finite := by
  rw [validate, Limits.validate] at valid
  split at valid
  next => cases valid
  next =>
    split at valid
    next => cases valid
    next shallow =>
      exact ⟨Nat.le_of_not_lt shallow, Limits.finite_of_judged (Limits.finite_of_checkAll _ valid)⟩

end Program

theorem Source.valid_of_load {files : Files} {fresh : Nat → BlockId} {source : Source} {p : Program}
    (loaded : source.load files fresh = .ok p) : validate p = .ok () := by
  simp only [Source.load, bind, Except.bind] at loaded
  split at loaded
  next => cases loaded
  split at loaded
  next => cases loaded
  split at loaded
  next => cases loaded
  split at loaded
  next => cases loaded
  split at loaded
  next => cases loaded
  next program compiled _ _ valid =>
    cases loaded
    cases checked : validate p with
    | error e =>
      rw [checked] at valid
      cases valid
    | ok => rfl

namespace Command

/-- A program that passes the checks is read back from its text, one with a number that is not finite is not,
and running a source is to compile it, to read what is printed and to play what is read. -/
theorem compile_prints (pretty : Bool) :
    (∀ p : Program, validate p = .ok () → Program.ofBytes (Text.bytes (p.printed pretty)) = .ok p) ∧
    (∀ p : Program, ¬ p.Finite → ∃ problem, Program.ofBytes (Text.bytes (p.printed pretty)) = .error problem) ∧
    ∀ (files : Files) (fresh : Nat → BlockId) (stop : StopRequest) (source : Source),
      ((perform files fresh stop (.compile source pretty)).map fun out => Program.ofBytes (Text.bytes out)) =
        (source.load files fresh).map .ok ∧
      ∀ (level : String) (stepMillis : Nat) (maxSteps : Option Nat),
        perform files fresh stop (.run source level stepMillis maxSteps) =
          (perform files fresh stop (.compile source pretty)).bind fun out =>
            ((Program.ofBytes (Text.bytes out)).mapError .program).bind fun p =>
              (playProgram files stop source.game level ⟨stepMillis⟩
                (maxSteps.getD RunSettings.default.maxSteps) p).map Summary.render := by
  refine ⟨fun p valid => ?_, fun p infinite => ?_, fun files fresh stop source => ?_⟩
  · obtain ⟨shallow, finite⟩ := Program.sound_of_validate valid
    have read := Program.ofBytes_printed (Nat.le_trans shallow (by decide)) finite pretty
      (List.forall_mem_nil _)
    rwa [List.append_nil] at read
  · obtain ⟨problem, fails⟩ := Program.ofBytes_infinite infinite pretty (List.forall_mem_nil _)
    rw [List.append_nil] at fails
    exact ⟨problem, fails⟩
  · cases loaded : source.load files fresh with
    | error e =>
      have prints : perform files fresh stop (.compile source pretty) = .error e := by
        rw [perform, loaded]
        rfl
      refine ⟨by rw [prints]; rfl, fun level stepMillis maxSteps => ?_⟩
      rw [prints, perform, playLevel, loaded]
      rfl
    | ok p =>
      obtain ⟨shallow, finite⟩ := Program.sound_of_validate (Source.valid_of_load loaded)
      have prints : perform files fresh stop (.compile source pretty) = .ok (p.printed pretty ++ "\n") := by
        rw [perform, loaded]
        rfl
      have read : Program.ofBytes (Text.bytes (p.printed pretty ++ "\n")) = .ok p := by
        have line : ∀ b ∈ Text.bytes "\n", Json.isSpace b := List.forall_mem_singleton.mpr rfl
        rw [Text.bytes_append]
        exact Program.ofBytes_printed (Nat.le_trans shallow (by decide)) finite pretty line
      refine ⟨by rw [prints]; exact congrArg Except.ok read, fun level stepMillis maxSteps => ?_⟩
      rw [prints, Except.bind, read, perform, playLevel, loaded]
      rfl

/-- A pensive loop: strings with what must be escaped, and numbers at their bounds. -/
def pensive : Program where
  ops := [.leaf ⟨"go"⟩ .start, .loop ⟨"again \x22"⟩ 10000 [.leaf ⟨"\n"⟩ (.turn .right (-22.5)),
    .leaf ⟨"ü"⟩ (.width 0.1), .leaf ⟨""⟩ (.color "#f00"), .leaf ⟨""⟩ (.move Int32.minValue),
    .leaf ⟨""⟩ (.wait 18446744073709551615), .loop ⟨""⟩ 0 []]]

def dizzy : Program := ⟨[.loop ⟨"again"⟩ 0 [.leaf ⟨"spin"⟩ (.turn .left (0 / 0))]]⟩

theorem compile_prints_pensive : validate pensive = .ok () ∧
    Program.ofBytes (Text.bytes (pensive.printed true)) = .ok pensive ∧ ¬ dizzy.Finite ∧
      ∃ problem, Program.ofBytes (Text.bytes (dizzy.printed true)) = .error problem := by
  have valid : validate pensive = .ok () := by rfl
  have undefined : ¬ ((0 / 0 : Float).isFinite = true) := by decide
  have infinite : ¬ dizzy.Finite := fun finite => undefined finite.1.1
  exact ⟨valid, (compile_prints true).1 pensive valid, infinite, (compile_prints true).2.1 dizzy infinite⟩

end Command

end BlockPlay

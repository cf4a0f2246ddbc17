import BlockPlay.Proofs.Run.Course

/-!
Runs that a game breaks off. It refuses the last of the instructions that it has been given, in the state
that the others have left.
-/
namespace BlockPlay.Session

variable {σ : Type} {game : Game σ} {limit : Nat} {stop : Nat → Nat → Bool}

theorem refused_of_settled {op : Op} {result : Except Fault Outcome} {block : BlockId} {m : String}
    (settles : settled op.block result = some (.failed (.step block m))) :
    result = .error (.refused m) ∧ op.block = block := by
  rcases result with (_ | _) | (_ | _ | _) <;> cases settles
  exact ⟨rfl, rfl⟩

/-- A run ends with a refusal at the leaf of the unrolled program that the game was given last. -/
theorem run_refused {ops : List Op} {state : σ} {block : BlockId} {m : String}
    (ended : ((new ops state).run game limit stop).ending? = some (.failed (.step block m))) :
    ∃ before op after, Op.unrolls ops = before ++ op :: after ∧ op.block = block ∧
      ((new ops state).run game limit stop).applied = before ++ [op] ∧
      ((new ops state).run game limit stop).steps = before.length + 1 ∧
      (game.apply op (carried game before (game.reset state).state)).result = .error (.refused m) ∧
      ((new ops state).run game limit stop).game =
        (game.apply op (carried game before (game.reset state).state)).state := by
  cases ready : (game.reset state).result with
  | error fault =>
    have meets : Meets ((new ops state).run game limit stop) _ _ := run_meets_start ops state
    obtain ⟨ending, -⟩ := meets
    simp only [reference, ready, ended, Option.some.injEq] at ending
    cases fault <;> cases ending
  | ok =>
    obtain ⟨applied, ending, found, course⟩ := run_course game limit stop ops state ready rfl
    obtain rfl : ending = _ := Option.some.inj (found.symm.trans ended)
    obtain ⟨k, op, steps, leaf, settles⟩ := course.last_leaf (by simp) (by simp) (by simp)
    obtain ⟨refused, same⟩ := refused_of_settled settles
    obtain ⟨present, rfl⟩ := List.getElem?_eq_some_iff.mp leaf
    have before : ((Op.unrolls ops).take k).length = k := List.length_take_of_le (Nat.le_of_lt present)
    have leaves : Op.unrolls ops =
        (Op.unrolls ops).take k ++ (Op.unrolls ops)[k] :: (Op.unrolls ops).drop (k + 1) := by
      rw [List.getElem_cons_drop, List.take_append_drop]
    refine ⟨_, _, _, leaves, same, ?_, before.symm ▸ steps, refused, ?_⟩
    · rw [applied, show Session.steps _ = k + 1 from steps, List.take_add_one, leaf, Option.toList_some]
    · exact course.state.trans (steps ▸ stateAfter_succ leaf)

end BlockPlay.Session

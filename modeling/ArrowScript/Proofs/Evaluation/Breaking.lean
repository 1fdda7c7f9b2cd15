import ArrowScript.Proofs.Evaluation.Safety

namespace ArrowScript

/-!
# Programs without breaks

A break leaves the statement that is executed only if it stands in it by the
text.  So a valid program whose statements have no such break never fails because
of a break outside of a loop or function.
-/

/-- A statement without breaks of its own completes. -/
theorem normal_of_no_breaks {depth : Nat} {frame : Frame} {stmt : Stmt}
    {completion : Completion} {machine final : Machine} (none : stmt.breaks = [])
    (ended : (evaluator depth).execute frame stmt machine = .ok completion final) :
    ∃ outcome, completion = .normal outcome := by
  have breaks := evaluator_breaksByText depth frame stmt machine completion final ended
  rw [none] at breaks
  cases completion with
  | normal outcome => exact ⟨outcome, rfl⟩
  | broke keyword outcome => cases breaks

/-- Well-formed statements without breaks of their own fail only as parts of a script can. -/
theorem executeProgram_possible {depth : Nat} {frame : Frame} {stmts : List Stmt}
    {machine final : Machine} {failure : Failure} (formed : ∀ stmt ∈ stmts, stmt.Formed True)
    (none : ∀ stmt ∈ stmts, stmt.breaks = []) (allows : Law.safe.Allows machine)
    (failed : (evaluator depth).executeProgram frame stmts machine = .error failure final) :
    failure.Possible := by
  induction stmts generalizing machine with
  | nil => cases failed
  | cons stmt rest ih =>
    obtain ⟨first, later⟩ := List.forall_mem_cons.mp formed
    obtain ⟨noneHere, noneLater⟩ := List.forall_mem_cons.mp none
    have ends :=
      (evaluator_governs Law.safe_isLoud depth).answers ⟨frame, .execute stmt, machine⟩
        ⟨first, allows⟩
    unfold Evaluator.executeProgram at failed
    cases outcome : (evaluator depth).execute frame stmt machine with
    | error reason between =>
      rw [Action.bind_of_error outcome] at failed
      cases failed
      exact Law.possible_of_safe (ends.fails _ _ outcome)
    | ok completion between =>
      rw [Action.bind_of_ok outcome] at failed
      have allowsAfter := ends.allows
      simp only [Evaluator.answer, Evaluator.perform, outcome] at allowsAfter
      obtain ⟨result, rfl⟩ := normal_of_no_breaks noneHere outcome
      exact ih later noneLater allowsAfter failed

/--
A break is found by the text alone.  Whatever the machine and the scope, a
statement that breaks does so with one of its own keywords.  Hence a valid
program whose statements have none, on a machine that runs have led to, never
fails because of a break outside of a loop or function.
-/
theorem breaks_lexically_scoped :
    (∀ depth frame statement machine keyword outcome final,
      (evaluator depth).execute frame statement machine = .ok (.broke keyword outcome) final →
      keyword ∈ statement.breaks) ∧
    ∀ machine,
      Session.Reached machine →
      ∀ depth frame text,
        (read text).valid = true →
        (∀ statement ∈ (read text).statements, statement.breaks = []) →
        ∀ error final,
          (evaluator depth).executeProgram frame (read text).statements machine =
            .error (.raised error) final →
          error.fault ≠ .breakOutside := by
  refine ⟨?_, ?_⟩
  · intro depth frame statement machine keyword outcome final ended
    exact evaluator_breaksByText depth frame statement machine _ final ended
  · intro machine reached depth frame text valid none error final failed isBreak
    have possible : error.fault.Possible :=
      executeProgram_possible (read_formed valid) none reached.allows failed
    rw [isBreak] at possible
    exact possible

/--
A break in a branch leaves the branch with its keyword.  A program that breaks
inside a loop only fails for another reason.
-/
theorem breaks_lexically_scoped_in_branch :
    let keyword : Token := ⟨.kwBreak, "break", .start, .none⟩
    let branch : Arm :=
      ⟨.literal (.bool true) default, ⟨default, [.leave keyword], default⟩⟩
    let text := "each c: \"ab\" \x7b if true \x7b break \x7d \x7d\n@nope"
    let machine := Action.after (Session.newRoot {})
    let program := (evaluator 9).executeProgram ⟨⟨0⟩, 0⟩ (read text).statements
    keyword ∈ (Stmt.conditional default [branch] none).breaks ∧
      Session.Reached machine ∧
      (read text).valid = true ∧
      (∀ statement ∈ (read text).statements, statement.breaks = []) ∧
      ∃ error final,
        program machine = .error (.raised error) final ∧ error.fault ≠ .breakOutside := by
  intro keyword branch text machine program
  have reached : Session.Reached machine := .newRoot (.fresh rfl)
  have valid : (read text).valid = true := by decide +kernel
  have unbroken : ∀ statement ∈ (read text).statements, statement.breaks = [] := by
    decide +kernel
  let error : RuntimeError :=
    ⟨[], some ⟨35, 2, 1⟩, .scope (.undefined .functionName "nope")⟩
  have ends : Action.failure? (program machine) = some (.raised error) := by decide +kernel
  refine ⟨?_, reached, valid, unbroken, ?_⟩
  · exact breaks_lexically_scoped.1 4 ⟨⟨0⟩, 0⟩ _ {} keyword .nothing _ rfl
  · obtain ⟨final, failed⟩ := Action.exists_of_failure? ends
    exact ⟨error, final, failed,
      breaks_lexically_scoped.2 machine reached 9
        ⟨⟨0⟩, 0⟩ text valid unbroken error final failed⟩

end ArrowScript

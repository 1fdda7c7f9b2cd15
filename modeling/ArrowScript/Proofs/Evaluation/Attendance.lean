import ArrowScript.Proofs.Evaluation.Visit

namespace ArrowScript

/-!
# The visits of code, in order

`Attends` lists the visits at which code hands over tasks, as they follow one
another.  Code ends the same way under every evaluator that gives the same
answers there, and where another evaluator fails hard along the list, the code
fails so.  Hence the listed visits are exactly the visits of `Calls`.
-/

/-- An evaluator answers like another one along a list of visits, up to a visit where it fails. -/
def Evaluator.FailsAlong (other actual : Evaluator) (failure : Failure) : List Visit → Prop
  | [] => False
  | visit :: rest =>
    (∃ final, other.answer visit = .error failure final) ∨
      (other.answer visit = actual.answer visit ∧ FailsAlong other actual failure rest)

namespace Evaluator

variable {other actual : Evaluator} {failure : Failure}

theorem failsAlong_append {first second : List Visit}
    (fails : other.FailsAlong actual failure (first ++ second)) :
    other.FailsAlong actual failure first ∨
      (∀ visit ∈ first, other.answer visit = actual.answer visit) ∧
        other.FailsAlong actual failure second := by
  induction first with
  | nil => exact .inr ⟨by simp, fails⟩
  | cons visit rest ih =>
    rcases fails with failed | ⟨same, later⟩
    · exact .inl (.inl failed)
    · rcases ih later with inFirst | ⟨agreement, inSecond⟩
      · exact .inl (.inr ⟨same, inFirst⟩)
      · exact .inr ⟨List.forall_mem_cons.mpr ⟨same, agreement⟩, inSecond⟩

/-- An evaluator that fails at a visit fails along every list that holds the visit. -/
theorem failsAlong_failingAt {visit : Visit} {visits : List Visit} (mem : visit ∈ visits) :
    (actual.failingAt visit failure).FailsAlong actual failure visits := by
  induction visits with
  | nil => cases mem
  | cons head rest ih =>
    by_cases isHead : head = visit
    · subst isHead
      exact .inl ⟨_, actual.failingAt_perform head.frame head.task head.machine failure⟩
    · have inRest := (List.mem_cons.mp mem).resolve_left (Ne.symm isHead)
      exact .inr ⟨actual.failingAt_answer_other isHead failure, ih inRest⟩

end Evaluator

/-- Code hands over its tasks at the listed visits, one after another. -/
structure Attends {α : Type} (actual : Evaluator) (code : Evaluator → Action α)
    (machine : Machine)
    (visits : List Visit) : Prop where
  agrees : ∀ other : Evaluator, other.rounds = actual.rounds →
    (∀ visit ∈ visits, other.answer visit = actual.answer visit) →
    code other machine = code actual machine
  stops : ∀ (other : Evaluator) (failure : Failure), other.rounds = actual.rounds →
    failure.IsHard →
    other.FailsAlong actual failure visits → ∃ final, code other machine = .error failure final

namespace Attends

variable {α β : Type} {actual : Evaluator} {machine : Machine} {visits : List Visit}
  {code : Evaluator → Action α}

theorem mem_of_calls {visit : Visit} (attends : Attends actual code machine visits)
    (calls : Calls actual code machine visit) : visit ∈ visits := by
  obtain ⟨other, sameRounds, elsewhere, differs⟩ := calls
  apply Classical.byContradiction
  intro absent
  apply differs
  apply attends.agrees other sameRounds
  intro listed mem
  apply elsewhere
  rintro rfl
  exact absent mem

/-- Among the ways to fail hard there is one in which an action did not end. -/
private theorem exists_hard_failure (outcome : EStateM.Result Failure Machine α) :
    ∃ failure : Failure, failure.IsHard ∧ ∀ final, outcome ≠ .error failure final := by
  by_cases exhausts : ∃ final, outcome = .error .exhausted final
  · obtain ⟨final, rfl⟩ := exhausts
    exact ⟨.unexpectedNode, by simp [Failure.IsHard], by simp⟩
  · exact ⟨.exhausted, by simp [Failure.IsHard], fun final same => exhausts ⟨final, same⟩⟩

theorem calls_of_mem {visit : Visit} (attends : Attends actual code machine visits)
    (mem : visit ∈ visits) : Calls actual code machine visit := by
  obtain ⟨failure, isHard, differs⟩ := exists_hard_failure (code actual machine)
  obtain ⟨final, ended⟩ :=
    attends.stops (actual.failingAt visit failure) failure rfl isHard
      (Evaluator.failsAlong_failingAt mem)
  refine ⟨actual.failingAt visit failure, rfl, ?_, ?_⟩
  · exact fun elsewhere different => actual.failingAt_answer_other different failure
  · rw [ended]
    exact (differs final).symm

theorem alone (action : Action α) : Attends actual (fun _ => action) machine [] where
  agrees _ _ _ := rfl
  stops _ _ _ _ fails := fails.elim

theorem perform (frame : Frame) (task : Task) :
    Attends actual (·.perform frame task) machine [⟨frame, task, machine⟩] where
  agrees _ _ agreement := agreement _ List.mem_cons_self
  stops _ _ _ _ fails := fails.elim id fun later => later.2.elim

theorem bind_of_ok {next : α → Evaluator → Action β} {value : α} {middle : Machine}
    {laterVisits : List Visit} (attends : Attends actual code machine visits)
    (ran : code actual machine = .ok value middle)
    (continues : Attends actual (next value) middle laterVisits) :
    Attends actual (fun evaluator => code evaluator >>= fun value => next value evaluator)
      machine (visits ++ laterVisits) where
  agrees other sameRounds agreement := by
    obtain ⟨first, second⟩ := List.forall_mem_append.mp agreement
    have same := attends.agrees other sameRounds first
    rw [ran] at same
    rw [Action.bind_of_ok same, Action.bind_of_ok ran]
    exact continues.agrees other sameRounds second
  stops other failure sameRounds isHard fails := by
    rcases Evaluator.failsAlong_append fails with inFirst | ⟨agreement, inSecond⟩
    · obtain ⟨final, ended⟩ := attends.stops other failure sameRounds isHard inFirst
      exact ⟨final, Action.bind_of_error ended⟩
    · have same := attends.agrees other sameRounds agreement
      rw [ran] at same
      rw [Action.bind_of_ok same]
      exact continues.stops other failure sameRounds isHard inSecond

theorem bind_of_error {next : α → Evaluator → Action β} {failure : Failure}
    {middle : Machine} (attends : Attends actual code machine visits)
    (failed : code actual machine = .error failure middle) :
    Attends actual (fun evaluator => code evaluator >>= fun value => next value evaluator)
      machine visits where
  agrees other sameRounds agreement := by
    have same := attends.agrees other sameRounds agreement
    rw [failed] at same
    rw [Action.bind_of_error same, Action.bind_of_error failed]
  stops other reason sameRounds isHard fails := by
    obtain ⟨final, ended⟩ := attends.stops other reason sameRounds isHard fails
    exact ⟨final, Action.bind_of_error ended⟩

theorem congr {written : Evaluator → Action α} (attends : Attends actual written machine visits)
    (same : ∀ evaluator, evaluator.rounds = actual.rounds →
        code evaluator machine = written evaluator machine) :
    Attends actual code machine visits where
  agrees other sameRounds agreement := by
    rw [same other sameRounds, same actual rfl]
    exact attends.agrees other sameRounds agreement
  stops other failure sameRounds isHard fails := by
    rw [same other sameRounds]
    exact attends.stops other failure sameRounds isHard fails

/-- Code that runs other code and goes on from its outcome, but lets its hard failures pass. -/
theorem around {outer : Evaluator → Action β} {start : Machine}
    (attends : Attends actual code start visits)
    (finish : EStateM.Result Failure Machine α → EStateM.Result Failure Machine β)
    (goesOn : ∀ evaluator, outer evaluator machine = finish (code evaluator start)) (passes :
      ∀ failure middle, failure.IsHard →
        ∃ final, finish (.error failure middle) = .error failure final) :
    Attends actual outer machine visits where
  agrees other sameRounds agreement := by
    rw [goesOn, goesOn, attends.agrees other sameRounds agreement]
  stops other failure sameRounds isHard fails := by
    obtain ⟨middle, ended⟩ := attends.stops other failure sameRounds isHard fails
    rw [goesOn, ended]
    exact passes failure middle isHard

end Attends

end ArrowScript

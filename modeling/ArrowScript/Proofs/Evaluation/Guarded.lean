import ArrowScript.Proofs.Evaluation.Lawful

namespace ArrowScript

/-!
# Runs under a guard

A guarded evaluator gives up where its guard does not let a visit pass.  Until
then it does what the evaluator without the guard does.  So a guarded run either
gives up or is the run itself, and it is the run itself if all visits pass.
-/

variable {visits : List Visit} {failure : Failure}

theorem Evaluator.agrees_or_failsAlong {other actual : Evaluator}
    (each : ∀ visit ∈ visits, other.answer visit = actual.answer visit ∨
      ∃ final, other.answer visit = .error failure final) :
    (∀ visit ∈ visits, other.answer visit = actual.answer visit) ∨
      other.FailsAlong actual failure visits := by
  induction visits with
  | nil => exact .inl (by simp)
  | cons visit rest ih =>
    obtain ⟨first, later⟩ := List.forall_mem_cons.mp each
    rcases first with same | failed
    · rcases ih later with agreement | fails
      · exact .inl (List.forall_mem_cons.mpr ⟨same, agreement⟩)
      · exact .inr (.inr ⟨same, fails⟩)
    · exact .inr (.inl failed)

theorem Evaluator.failsAlong_of_mem {other actual : Evaluator} {visit : Visit} {final : Machine}
    (agreement : ∀ visit ∈ visits, other.answer visit = actual.answer visit)
    (mem : visit ∈ visits) (failed : other.answer visit = .error failure final) :
    other.FailsAlong actual failure visits := by
  induction visits with
  | nil => cases mem
  | cons first rest ih =>
    obtain ⟨same, restAgrees⟩ := List.forall_mem_cons.mp agreement
    rcases List.mem_cons.mp mem with rfl | inRest
    · exact .inl ⟨final, failed⟩
    · exact .inr ⟨same, ih restAgrees inRest⟩

section

variable {α : Type} {guard : Visit → Prop} [DecidablePred guard] {depth : Nat}
  {code : Evaluator → Action α} {machine : Machine}

theorem Attends.agrees_or_fails {actual other : Evaluator}
    (attends : Attends actual code machine visits) (sameRounds : other.rounds = actual.rounds)
    (isHard : failure.IsHard)
    (each : ∀ visit ∈ visits, other.answer visit = actual.answer visit ∨
      ∃ final, other.answer visit = .error failure final) :
    code other machine = code actual machine ∨
      ∃ final, code other machine = .error failure final := by
  rcases Evaluator.agrees_or_failsAlong each with agreement | fails
  · exact .inl (attends.agrees other sameRounds agreement)
  · exact .inr (attends.stops other failure sameRounds isHard fails)

theorem evaluatorWithin_rounds (depth : Nat) :
    (evaluatorWithin guard depth).rounds = (evaluator depth).rounds := by
  cases depth <;> rfl

theorem step_attended (level : Nat) (visit : Visit) :
    ∃ visits, Attends (evaluator level) (·.step visit.frame visit.task) visit.machine visits :=
  (Evaluator.step_keeps (evaluator_steady level) visit.frame visit.task visit.machine).imp
    fun _ course => course.attends

variable (guard) in
/-- A guarded task ends like the task itself, or it gives up. -/
theorem answer_evaluatorWithin (level : Nat) (visit : Visit) :
    (evaluatorWithin guard level).answer visit = (evaluator level).answer visit ∨
      ∃ final, (evaluatorWithin guard level).answer visit = .error .unexpectedNode final := by
  induction level generalizing visit with
  | zero => exact .inl rfl
  | succ level ih =>
    unfold Evaluator.answer
    by_cases passes : guard visit
    · obtain ⟨visits, attends⟩ := step_attended level visit
      rw [evaluatorWithin_passes level passes, evaluator_succ_perform]
      exact attends.agrees_or_fails (evaluatorWithin_rounds level) (by simp [Failure.IsHard])
        fun inner _ => ih inner
    · exact .inr ⟨visit.machine, evaluatorWithin_stops level passes⟩

theorem run_evaluatorWithin
    (attends : Attends (evaluator depth) code machine visits) :
    code (evaluatorWithin guard depth) machine = code (evaluator depth) machine ∨
      ∃ final, code (evaluatorWithin guard depth) machine = .error .unexpectedNode final :=
  attends.agrees_or_fails (evaluatorWithin_rounds depth) (by simp [Failure.IsHard])
    fun visit _ => answer_evaluatorWithin guard depth visit

/-- An action ends well or with an error of the script. -/
def Action.IsSoft (ended : EStateM.Result Failure Machine α) : Prop :=
  ∀ failure final, ended = .error failure final → ¬ failure.IsHard

theorem evaluatorWithin_guard_of_isSoft {level : Nat} {visit : Visit}
    (isSoft : Action.IsSoft ((evaluatorWithin guard level).answer visit)) : guard visit := by
  obtain ⟨frame, task, machine⟩ := visit
  by_contra stops
  cases level with
  | zero => cases task <;> exact isSoft .exhausted machine rfl (by simp [Failure.IsHard])
  | succ level => exact isSoft _ _ (evaluatorWithin_stops level stops) (by simp [Failure.IsHard])

/-- Where guarded code ends softly, so do the tasks that it hands over. -/
theorem Attends.isSoft (attends : Attends (evaluator depth) code machine visits)
    (isSoft : Action.IsSoft (code (evaluatorWithin guard depth) machine)) {visit : Visit}
    (mem : visit ∈ visits) : Action.IsSoft ((evaluatorWithin guard depth).answer visit) := by
  intro failure final failed isHard
  have stops {failure : Failure} (isHard : failure.IsHard)
      (fails : (evaluatorWithin guard depth).FailsAlong (evaluator depth) failure visits) : False :=
    have ⟨final, ended⟩ := attends.stops _ failure (evaluatorWithin_rounds depth) isHard fails
    isSoft failure final ended isHard
  have each := fun visit (_ : visit ∈ visits) => answer_evaluatorWithin guard depth visit
  rcases Evaluator.agrees_or_failsAlong each with agreement | fails
  · exact stops isHard (Evaluator.failsAlong_of_mem agreement mem failed)
  · exact stops (by simp [Failure.IsHard]) fails

/-- A guard that does not stop a run lets all visits of the run pass. -/
theorem Visited.passes {level : Nat} {visit : Visit}
    (attends : Attends (evaluator depth) code machine visits)
    (isSoft : Action.IsSoft (code (evaluatorWithin guard depth) machine))
    (visited : Visited depth code machine level visit) : guard visit := by
  suffices ends : Action.IsSoft ((evaluatorWithin guard level).answer visit) from
    evaluatorWithin_guard_of_isSoft ends
  induction visited with
  | first calls => exact attends.isSoft isSoft (attends.mem_of_calls calls)
  | @next level outer inner _ calls ih =>
    obtain ⟨_, nested⟩ := step_attended level outer
    apply nested.isSoft _ (nested.mem_of_calls calls)
    exact evaluatorWithin_passes level (evaluatorWithin_guard_of_isSoft ih) ▸ ih

section

variable (passes : ∀ level visit, Visited depth code machine level visit → guard visit)

include passes

/-- Where a guard lets every visit of a run pass, the guarded tasks end like the tasks. -/
theorem Visited.answer_evaluatorWithin {level : Nat} {visit : Visit}
    (visited : Visited depth code machine level visit) :
    (evaluatorWithin guard level).answer visit = (evaluator level).answer visit := by
  induction level generalizing visit with
  | zero => rfl
  | succ level ih =>
    obtain ⟨visits, attends⟩ := step_attended level visit
    unfold Evaluator.answer
    rw [evaluatorWithin_passes level (passes _ visit visited), evaluator_succ_perform]
    exact attends.agrees _ (evaluatorWithin_rounds level) fun inner mem =>
      ih (.next visited (attends.calls_of_mem mem))

theorem run_evaluatorWithin_of_passes
    (attends : Attends (evaluator depth) code machine visits) :
    code (evaluatorWithin guard depth) machine = code (evaluator depth) machine :=
  attends.agrees _ (evaluatorWithin_rounds depth) fun _ mem =>
    Visited.answer_evaluatorWithin passes (.first (attends.calls_of_mem mem))

/-- Where a guard lets every visit of a run pass, the run goes alike on the silent machine. -/
theorem run_twin_of_passes {law : Law} {guardedPost : Store → α → Prop}
    (attended : ∀ machine, ∃ visits, Attends (evaluator depth) code machine visits)
    (notGivenUp : ∀ final, code (evaluator depth) machine ≠ .error .unexpectedNode final)
    (obeys : ObeysAt law (evaluatorWithin guard depth) code guardedPost machine)
    (allows : law.Allows machine) : code (evaluator depth) (law.twin machine) =
      Action.mapAfter law.twin (code (evaluator depth) machine) := by
  obtain ⟨_, attends⟩ := attended machine
  obtain ⟨visits, -, -, ends⟩ := obeys allows
  rw [run_evaluatorWithin_of_passes passes attends] at ends
  have alike := ends.alike notGivenUp
  obtain ⟨_, silentAttends⟩ := attended (law.twin machine)
  have given : code (evaluatorWithin guard depth) _ = _ ∨ _ := run_evaluatorWithin silentAttends
  rcases given with same | ⟨final, gaveUp⟩
  · rw [← same]
    exact alike
  · -- The guarded run on the silent machine ends like the run on the other one.
    rw [alike] at gaveUp
    cases outcome : code (evaluator depth) machine with
    | ok value ended =>
      rw [outcome] at gaveUp
      cases gaveUp
    | error failure ended =>
      rw [outcome] at gaveUp
      cases gaveUp
      exact (notGivenUp ended outcome).elim

end

theorem runSource_attended (scope : Ref .scope) (text : String) (machine : Machine) :
    ∃ visits, Attends (evaluator depth) (·.runSource scope text) machine visits :=
  (Evaluator.runSource_keeps (evaluator_steady depth) scope text machine).imp
    fun _ course => course.attends

end

end ArrowScript

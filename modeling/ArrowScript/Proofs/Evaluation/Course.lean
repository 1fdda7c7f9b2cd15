import ArrowScript.Proofs.Evaluation.Attendance
import ArrowScript.Proofs.Evaluation.Deed
import ArrowScript.Proofs.Scope.Progress

namespace ArrowScript

/-!
# The course of code

The course of code that is run on a machine is the list of its visits.  The code
keeps to a contract: it does to scopes what an outline allows, and its visits are
where the contract lets them be.  To the end, and behind each visit, the store is
only edited, and in the end the imports that go on are the same.

A course may tell besides where a failure comes from.  A task that fails ends the
code with the same failure, and where no task fails the failure is one that the
code raises by itself.
-/

open ArrowScript.Action

/-- What code may do to scopes, and at which visits it may hand over tasks. -/
structure Contract where
  frame : Frame
  outline : List Element
  isOpen : Bool
  enters : Machine → Visit → Prop
  enters_behind : ∀ {first second visit}, Progress frame outline isOpen first second →
    first.Edits second → enters second visit → enters first visit

namespace Contract

/-- How the machine may change while the contract runs. -/
abbrev moves (contract : Contract) : Machine → Machine → Prop :=
  Progress contract.frame contract.outline contract.isOpen

/-- What a contract allows behind a machine in the middle, another one allows from the start on. -/
structure Covers (outer inner : Contract) (machine middle : Machine) : Prop where
  moves : ∀ final, inner.moves middle final → outer.moves machine final
  enters : ∀ visit, inner.enters middle visit → outer.enters machine visit

/-- What code with an outline may do in a frame. -/
def code (frame : Frame) (outline : List Element) (isOpen : Bool) : Contract where
  frame := frame
  outline := outline
  isOpen := isOpen
  enters machine visit := Enters frame outline machine visit ∧ machine.Edits visit.machine
  enters_behind moved edits entered := ⟨entered.1.behind moved.opened, edits.trans entered.2⟩

/-- What code with an outline may do in a frame, also while it imports a file. -/
def handing (frame : Frame) (outline : List Element) : Contract where
  frame := frame
  outline := outline
  isOpen := false
  enters := Enters frame outline
  enters_behind moved _ entered := entered.behind moved.opened

/-- What the statements of a body may do in its frame. -/
def statements (frame : Frame) (body : Body) : Contract where
  frame := frame
  outline := body.outline
  isOpen := false
  enters machine visit := Executes frame body machine visit ∧ machine.Edits visit.machine
  enters_behind moved edits entered := ⟨entered.1.behind moved, edits.trans entered.2⟩

/-- What importing a file may do, which is marked as being imported meanwhile. -/
def importing (frame : Frame) (outline : List Element) (path : Option String) : Contract where
  frame := frame
  outline := outline
  isOpen := false
  enters machine visit :=
    Enters frame outline machine visit ∧
      ∃ file ∈ path,
        file ∉ machine.importing ∧ visit.machine.importing = file :: machine.importing
  enters_behind moved edits entered := by
    rw [← edits.importing]
    exact ⟨entered.1.behind moved.opened, entered.2⟩

end Contract

/-- The visits of code, with what becomes of the machine, and what is told about failures. -/
structure Course {α : Type} (told : Option (Option Position → Fault → Prop))
    (actual : Evaluator)
    (contract : Contract) (code : Evaluator → Action α) (machine : Machine)
    (visits : List Visit) : Prop where
  attends : Attends actual code machine visits
  enters : ∀ visit ∈ visits, contract.enters machine visit
  leaves : ∀ visit ∈ visits,
    (after (actual.answer visit)).store.Edits (after (code actual machine)).store
  moves : contract.moves machine (after (code actual machine))
  edits : machine.Edits (after (code actual machine))
  passes : told.isSome → ∀ visit ∈ visits, ∀ failure middle,
    actual.answer visit = .error failure middle →
    ∃ final, code actual machine = .error failure final
  raises : ∀ may ∈ told, ∀ failure final, code actual machine = .error failure final →
    failure.Fresh may ∨ ∃ visit ∈ visits, ∃ middle,
      actual.answer visit = .error failure middle

/-- Code has a course from a machine. -/
def KeepsAt (told : Option (Option Position → Fault → Prop)) (actual : Evaluator)
    (contract : Contract) (code : Evaluator → Action α) (machine : Machine) : Prop :=
  ∃ visits, Course told actual contract code machine visits

/-- Code has a course from every machine. -/
def Keeps (told : Option (Option Position → Fault → Prop)) (actual : Evaluator)
    (contract : Contract) (code : Evaluator → Action α) : Prop :=
  ∀ machine, KeepsAt told actual contract code machine

section

variable {α β : Type} {told : Option (Option Position → Fault → Prop)}
  {may : Option Position → Fault → Prop} {actual : Evaluator} {contract inner : Contract}
  {machine : Machine} {visits : List Visit} {action : Action α} {code : Evaluator → Action α}
  {next : α → Evaluator → Action β}

theorem Course.forget (course : Course told actual contract code machine visits) :
    Course none actual contract code machine visits :=
  { course with passes := by simp, raises := by simp }

section

variable (keeps : KeepsAt told actual contract code machine)

include keeps

theorem KeepsAt.forget : KeepsAt none actual contract code machine :=
  keeps.imp fun _ => .forget

theorem KeepsAt.moves : contract.moves machine (after (code actual machine)) :=
  keeps.elim fun _ => Course.moves

theorem KeepsAt.edits : machine.Edits (after (code actual machine)) :=
  keeps.elim fun _ => Course.edits

theorem KeepsAt.enters {visit : Visit} (calls : Calls actual code machine visit) :
    contract.enters machine visit := by
  obtain ⟨visits, course⟩ := keeps
  exact course.enters visit (course.attends.mem_of_calls calls)

theorem KeepsAt.leaves {visit : Visit} (calls : Calls actual code machine visit) :
    (after (actual.answer visit)).store.Edits (after (code actual machine)).store := by
  obtain ⟨visits, course⟩ := keeps
  exact course.leaves visit (course.attends.mem_of_calls calls)

end

theorem KeepsAt.own (moves : contract.moves machine (after (action machine)))
    (edits : machine.Edits (after (action machine)))
    (raises : ∀ may ∈ told, ∀ failure final, action machine = .error failure final →
      failure.Fresh may) :
    KeepsAt told actual contract (fun _ => action) machine :=
  ⟨[], .alone action, by simp, by simp, moves, edits, by simp,
    fun may isTold failure final failed => .inl (raises may isTold failure final failed)⟩

theorem KeepsAt.deed (deed : Deed may action)
    (moves : contract.moves machine (after (action machine))) :
    KeepsAt (some may) actual contract (fun _ => action) machine := by
  apply KeepsAt.own moves (deed.edits machine)
  rintro _ ⟨⟩
  exact deed.raises machine

theorem KeepsAt.perform (frame : Frame) (task : Task)
    (enters : contract.enters machine ⟨frame, task, machine⟩)
    (moves : contract.moves machine (after (actual.answer ⟨frame, task, machine⟩)))
    (edits : machine.Edits (after (actual.answer ⟨frame, task, machine⟩))) :
    KeepsAt told actual contract (·.perform frame task) machine := by
  refine ⟨[⟨frame, task, machine⟩], .perform frame task, ?_, ?_, moves, edits, ?_, ?_⟩
  · exact List.forall_mem_singleton.mpr enters
  · exact List.forall_mem_singleton.mpr (.refl _)
  · exact fun _ => List.forall_mem_singleton.mpr fun failure middle failed => ⟨middle, failed⟩
  · exact fun _ _ failure final failed => .inr ⟨_, List.mem_singleton_self _, final, failed⟩

theorem Course.bind_of_ok {value : α} {middle : Machine} {later : List Visit}
    (course : Course told actual contract code machine visits)
    (ran : code actual machine = .ok value middle)
    (continues : Course told actual inner (next value) middle later)
    (covers : contract.Covers inner machine middle) : Course told actual contract
      (fun evaluator => code evaluator >>= fun value => next value evaluator)
      machine (visits ++ later) := by
  obtain ⟨attends, enters, leaves, -, edits, passes, -⟩ := course
  simp only [ran] at leaves edits passes
  have bound : (code actual >>= fun value => next value actual) machine =
      next value actual middle :=
    Action.bind_of_ok ran
  refine ⟨attends.bind_of_ok ran continues.attends, ?_, ?_, ?_, ?_, ?_, ?_⟩
  · exact List.forall_mem_append.mpr
      ⟨enters, fun visit mem => covers.enters visit (continues.enters visit mem)⟩
  all_goals simp only [bound]
  · exact List.forall_mem_append.mpr
      ⟨fun visit mem => (leaves visit mem).trans continues.edits.store, continues.leaves⟩
  · exact covers.moves _ continues.moves
  · exact edits.trans continues.edits
  · intro isTold
    refine List.forall_mem_append.mpr ⟨?_, continues.passes isTold⟩
    intro visit mem failure stopped failed
    obtain ⟨final, ended⟩ := passes isTold visit mem failure stopped failed
    cases ended
  · intro may isTold failure final failed
    rcases continues.raises may isTold failure final failed with fresh | ⟨visit, mem, passed⟩
    · exact .inl fresh
    · exact .inr ⟨visit, List.mem_append_right visits mem, passed⟩

theorem Course.bind_of_error {failure : Failure} {middle : Machine}
    (course : Course told actual contract code machine visits)
    (failed : code actual machine = .error failure middle) : Course told actual contract
      (fun evaluator => code evaluator >>= fun value => next value evaluator) machine visits := by
  obtain ⟨attends, enters, leaves, moves, edits, passes, raises⟩ := course
  simp only [failed] at leaves moves edits passes raises
  have bound : (code actual >>= fun value => next value actual) machine = .error failure middle :=
    Action.bind_of_error failed
  refine ⟨attends.bind_of_error failed, enters, ?_, ?_, ?_, ?_, ?_⟩
  all_goals simp only [bound]
  · exact leaves
  · exact moves
  · exact edits
  · simpa using passes
  · simpa using raises

theorem KeepsAt.compose (keeps : KeepsAt told actual contract code machine)
    (continues : ∀ value middle, code actual machine = .ok value middle → ∃ inner : Contract,
      KeepsAt told actual inner (next value) middle ∧ contract.Covers inner machine middle) :
    KeepsAt told actual contract
      (fun evaluator => code evaluator >>= fun value => next value evaluator) machine := by
  obtain ⟨visits, course⟩ := keeps
  cases outcome : code actual machine with
  | ok value middle =>
    obtain ⟨inner, ⟨later, continues⟩, covers⟩ := continues value middle outcome
    exact ⟨visits ++ later, course.bind_of_ok outcome continues covers⟩
  | error failure middle => exact ⟨visits, course.bind_of_error outcome⟩

theorem KeepsAt.bind (keeps : KeepsAt told actual contract code machine)
    (continues : ∀ value middle, code actual machine = .ok value middle →
      KeepsAt told actual contract (next value) middle) :
    KeepsAt told actual contract
      (fun evaluator => code evaluator >>= fun value => next value evaluator) machine := by
  apply keeps.compose
  intro value middle ran
  have moves := keeps.moves
  have edits := keeps.edits
  rw [ran] at moves edits
  have covers : contract.Covers contract machine middle :=
    ⟨fun _ => moves.trans, fun _ => contract.enters_behind moves edits⟩
  exact ⟨contract, continues value middle ran, covers⟩

theorem Keeps.bind (keeps : Keeps told actual contract code)
    (continues : ∀ value, Keeps told actual contract (next value)) : Keeps told actual contract
      fun evaluator => code evaluator >>= fun value => next value evaluator :=
  fun machine => (keeps machine).bind fun value middle _ => continues value middle

/--
Code that goes on from the outcome of other code, which may start on another
machine, but lets its hard failures pass.
-/
theorem Course.around {outer : Evaluator → Action β} {start : Machine}
    (course : Course told actual inner code start visits)
    (finish : EStateM.Result Failure Machine α → EStateM.Result Failure Machine β)
    (goesOn : ∀ evaluator, outer evaluator machine = finish (code evaluator start)) (passes :
      ∀ failure middle, failure.IsHard →
        ∃ final, finish (.error failure middle) = .error failure final)
    (enters : ∀ visit, inner.enters start visit → contract.enters machine visit)
    (moves : ∀ outcome,
        inner.moves start (after outcome) → contract.moves machine (after (finish outcome)))
    (ends : ∀ outcome, (after outcome).store.Edits (after (finish outcome)).store) (edits :
      ∀ outcome, start.Edits (after outcome) → machine.Edits (after (finish outcome))) :
    Course none actual contract outer machine visits where
  attends := course.attends.around finish goesOn passes
  enters visit member := enters visit (course.enters visit member)
  leaves visit member := by
    rw [goesOn]
    exact (course.leaves visit member).trans (ends _)
  moves := by
    rw [goesOn]
    exact moves _ course.moves
  edits := by
    rw [goesOn]
    exact edits _ course.edits
  passes := by simp
  raises := by simp

theorem KeepsAt.congr {written : Evaluator → Action α}
    (keeps : KeepsAt told actual contract written machine)
    (same : ∀ evaluator, evaluator.rounds = actual.rounds →
      code evaluator machine = written evaluator machine) :
    KeepsAt told actual contract code machine := by
  obtain ⟨visits, course⟩ := keeps
  have sameHere := same actual rfl
  refine ⟨visits, course.attends.congr same, course.enters, ?_, ?_, ?_, ?_, ?_⟩
  all_goals rw [sameHere]
  · exact course.leaves
  · exact course.moves
  · exact course.edits
  · exact course.passes
  · exact course.raises

/-- A call is noted on an error that passes. -/
theorem KeepsAt.inCall (site : CallSite) (keeps : KeepsAt told actual contract code machine) :
    KeepsAt none actual contract (fun evaluator => Action.inCall site (code evaluator))
      machine := by
  obtain ⟨visits, course⟩ := keeps
  have same (outcome : EStateM.Result Failure Machine α) :
      after (Action.inCall site (fun _ => outcome) machine) = after outcome := by
    rcases outcome with _ | ⟨failure, final⟩
    · rfl
    · cases failure <;> rfl
  refine ⟨visits, course.around (fun outcome => Action.inCall site (fun _ => outcome) machine)
    (fun _ => rfl) (fun _ middle isHard => isHard.inCall site machine middle)
      (fun _ => id) ?_ ?_ ?_⟩
  all_goals
    intro outcome
    rw [same]
  · exact id
  · exact .refl _
  · exact id

theorem KeepsAt.reporting {code : Evaluator → Action Unit}
    (keeps : KeepsAt told actual contract code machine) :
    KeepsAt none actual contract (fun evaluator => Evaluator.reporting (code evaluator))
      machine := by
  obtain ⟨visits, course⟩ := keeps
  let finish (outcome : EStateM.Result Failure Machine Unit) :=
    Evaluator.reporting (fun _ => outcome) machine
  have world (outcome : EStateM.Result Failure Machine Unit) :
      ∃ world, after (finish outcome) = { after outcome with world := world } := by
    rcases outcome with _ | ⟨failure, final⟩
    · exact ⟨_, rfl⟩
    · cases failure <;> exact ⟨_, rfl⟩
  refine ⟨visits, course.around finish (fun _ => rfl) ?_ (fun _ => id) ?_ ?_ ?_⟩
  · intro failure middle isHard
    cases failure with
    | raised error => exact (isHard error rfl).elim
    | _ => exact ⟨middle, rfl⟩
  all_goals
    intro outcome
    obtain ⟨_, same⟩ := world outcome
    rw [same]
  · exact fun moved => moved.trans (.kept rfl (Nat.le_refl _))
  · exact .refl _
  · exact fun edits => edits.trans ⟨.refl _, rfl, rfl, Nat.le_refl _⟩

/-- Between saving `@` and putting it back, `@` is open. -/
theorem KeepsAt.keepingContext {frame : Frame} {outline : List Element} {isOpen : Bool}
    (keeps : KeepsAt told actual (.code frame outline true) code machine) :
    KeepsAt told actual (.code frame outline isOpen)
      (fun evaluator => Action.keepingContext frame.scope (code evaluator)) machine := by
  obtain ⟨visits, course⟩ := keeps
  have goesOn (evaluator : Evaluator) :=
    Action.keepingContext_eq frame.scope (code evaluator) machine
  have around : Course none actual (.code frame outline isOpen)
      (fun evaluator => Action.keepingContext frame.scope (code evaluator)) machine visits := by
    refine course.around _ goesOn (fun _ _ _ => ⟨_, rfl⟩) (fun _ => id) ?_ ?_ ?_
    all_goals
      intro outcome
      rw [after_mapAfter]
    · exact .restore
    · exact .setContext _ _ _
    · exact fun edits => edits.trans (.setContext _ _ _)
  refine ⟨visits, { around with passes := ?_, raises := ?_ }⟩
  · intro isTold visit mem failure middle failed
    obtain ⟨final, ended⟩ := course.passes isTold visit mem failure middle failed
    rw [goesOn, ended]
    exact ⟨_, rfl⟩
  · intro may isTold failure final failed
    rw [goesOn] at failed
    cases outcome : code actual machine with
    | ok value middle =>
      rw [outcome] at failed
      cases failed
    | error reason middle =>
      rw [outcome] at failed
      cases failed
      exact course.raises may isTold failure middle outcome

end

end ArrowScript

import ArrowScript.Proofs.Evaluation.CallTrace
import ArrowScript.Proofs.Evaluation.Guarded
import ArrowScript.Proofs.Grammar.Formation
import ArrowScript.Proofs.Session.Reachable

namespace ArrowScript

/-!
# Valid programs never reach impossible branches

That trees are well formed is a demand that laws can make: a well-formed tree asks
for nothing but well-formed trees and for faults that a script can have.  So the
tasks of a run fail only as the parts of a script can.
-/

/-- A task is well formed; a group is evaluated in front of `::` only. -/
def Task.Formed : Task → Prop
  | .evaluate expr => expr.Formed True .value ∨ expr.Formed True .base
  | .execute stmt => stmt.Formed True

variable {stmt : Stmt}

theorem declares_cases (declares : stmt.declares) :
    (∃ keyword name params body, stmt = .function keyword name params body) ∨
      (∃ keyword name body, stmt = .group keyword name body) ∨
      (∃ keyword name, stmt = .expression (.declaration keyword name)) ∨
      ∃ keyword name value, stmt = .expression (.assign (.declaration keyword name) value) := by
  unfold Stmt.declares at declares
  split at declares
  · exact .inl ⟨_, _, _, _, rfl⟩
  · exact .inr (.inl ⟨_, _, _, rfl⟩)
  · unfold Expr.declares at declares
    split at declares
    · exact .inr (.inr (.inl ⟨_, _, rfl⟩))
    · exact .inr (.inr (.inr ⟨_, _, _, rfl⟩))
    · cases declares
  · cases declares

theorem Stmt.IsMember.breaks (isMember : stmt.IsMember) : stmt.breaks = [] := by
  cases stmt with
  | expression value =>
    rcases isMember with declares | imports
    · rcases declares_cases declares with
        ⟨_, _, _, _, same⟩ | ⟨_, _, _, same⟩ | ⟨_, _, same⟩ |
          ⟨_, _, _, same⟩ <;> cases same <;> rfl
    · cases imports
  | conditional => rcases isMember with declares | imports <;> contradiction
  | leave => rcases isMember with declares | imports <;> contradiction
  | _ => rfl

theorem Stmt.listBreaks_eq_nil {stmts : List Stmt}
    (areMembers : ∀ stmt ∈ stmts, stmt.IsMember) :
    Stmt.listBreaks stmts = [] := by
  induction stmts with
  | nil => rfl
  | cons stmt rest ih =>
    obtain ⟨first, later⟩ := List.forall_mem_cons.mp areMembers
    unfold Stmt.listBreaks
    rw [first.breaks, ih later, List.nil_append]

namespace Demand

/-- Trees are well formed, and faults are those that a script can have. -/
def formed (hard : Failure → Prop) (exhausted : hard .exhausted) : Demand where
  task := Task.Formed
  function function := function.body.Formed True
  fault := Fault.Possible
  hard := hard
  possible _ isPossible := isPossible
  exhausted := exhausted

theorem hard_of_fails {demand : Demand} {failure : Failure} (isHard : failure.IsHard)
    (fails : demand.fails failure) : demand.hard failure := by
  cases failure with
  | raised error => exact (isHard error rfl).elim
  | _ => exact fails

section

variable {hard : Failure → Prop} {exhausted : hard .exhausted}

theorem body_of_formed {body : Block} (isFormed : body.Formed True) :
    (formed hard exhausted).body body :=
  body.formed_iff.mp isFormed

theorem fitsArms_of_formed {arms : List Arm} {otherwise : Option Block}
    (armsFormed : Arm.ListFormed True arms) (otherwiseFormed : Block.OptionFormed True otherwise) :
    (formed hard exhausted).allowance.FitsArms arms otherwise := by
  refine ⟨fun arm mem => ?_, ?_⟩
  · have armFormed := (Arm.listFormed_iff arms).mp armsFormed arm mem
    cases arm with
    | mk condition body =>
      obtain ⟨conditionFormed, bodyFormed⟩ := armFormed
      exact ⟨.inl conditionFormed, body_of_formed bodyFormed⟩
  · rintro body ⟨⟩
    exact body_of_formed otherwiseFormed

theorem fitsTarget_of_formed {target : Expr} (isTarget : target.IsTarget)
    (isFormed : target.Formed True .value) :
    (formed hard exhausted).allowance.FitsTarget target := by
  cases target with
  | declaration => trivial
  | reference => trivial
  | element base pos =>
    obtain ⟨-, -, baseFormed, positionFormed⟩ := isFormed
    exact ⟨.inl baseFormed, .inl positionFormed⟩
  | groupMember group name =>
    obtain ⟨-, -, groupFormed⟩ := isFormed
    exact .inr groupFormed
  | _ => exact isTarget.elim

theorem fitsCallee_of_formed {callee : Expr} (isFormed : callee.Formed True .callee) :
    (formed hard exhausted).allowance.FitsCallee callee := by
  cases callee with
  | functionName => trivial
  | groupMember group name =>
    obtain ⟨-, -, groupFormed⟩ := isFormed
    exact .inr groupFormed
  | literal | declaration | context => exact (isFormed rfl).elim
  | reference | groupName => cases isFormed
  | binary | unary => cases isFormed.1
  | _ => exact (isFormed.1 rfl).elim

theorem fits_of_formed {expr : Expr} {role : Role} (isUsed : role ≠ .callee)
    (isFormed : expr.Formed True role) :
    (formed hard exhausted).allowance.Fits expr := by
  cases expr with
  | binary op left right =>
    obtain ⟨-, isOperator, -, -, leftFormed, rightFormed⟩ := isFormed
    exact ⟨.inl leftFormed, .inl rightFormed, fun isNone => (isOperator isNone).elim⟩
  | unary op operand => exact .inl isFormed.2.2
  | grouping inner => exact .inl isFormed.2
  | literal | reference | context | groupName | declaration => trivial
  | assign target value =>
    obtain ⟨-, isTarget, targetFormed, valueFormed⟩ := isFormed
    exact ⟨fitsTarget_of_formed isTarget targetFormed, .inl valueFormed⟩
  | call callee args =>
    obtain ⟨-, calleeFormed, argumentsFormed⟩ := isFormed
    refine ⟨fitsCallee_of_formed calleeFormed, fun arg mem => ?_⟩
    exact .inl ((Expr.listFormed_iff args).mp argumentsFormed arg mem)
  | choice keyword subject arms otherwise closing =>
    obtain ⟨-, subjectFormed, armsFormed, otherwiseFormed⟩ := isFormed
    exact ⟨.inl subjectFormed, fitsArms_of_formed armsFormed otherwiseFormed⟩
  | block body => exact body_of_formed isFormed.2
  | array opening items closing =>
    intro item mem
    have itemFormed := (ArrayItem.listFormed_iff items).mp isFormed.2 item mem
    cases item
    exact .inl itemFormed
  | object opening items closing =>
    intro item mem
    have itemFormed := (ObjectItem.listFormed_iff items).mp isFormed.2 item mem
    cases item <;> exact .inl itemFormed
  | element base pos =>
    obtain ⟨-, -, baseFormed, positionFormed⟩ := isFormed
    exact ⟨.inl baseFormed, .inl positionFormed⟩
  | push keyword value => exact .inl isFormed.2
  | interpolation opening parts closing =>
    exact fun part mem => .inl ((Expr.listFormed_iff parts).mp isFormed.2 part mem)
  | groupMember group name =>
    obtain ⟨-, -, groupFormed⟩ := isFormed
    exact .inr groupFormed
  | functionName => exact (isUsed isFormed).elim

theorem fitsGroup_of_formed {name : Token} {body : Block} (bodyFormed : body.Formed True)
    (areMembers : True → ∀ inner ∈ body.statements, inner.IsMember) :
    (formed hard exhausted).allowance.group name body :=
  ⟨body_of_formed bodyFormed, .inr (Stmt.listBreaks_eq_nil (areMembers trivial))⟩

theorem fitsDeclaration_of_formed (declares : stmt.declares) (isFormed : stmt.Formed True) :
    (formed hard exhausted).allowance.FitsDeclaration stmt := by
  rcases declares_cases declares with
    ⟨keyword, name, params, body, rfl⟩ | ⟨keyword, name, body, rfl⟩ |
      ⟨keyword, name, rfl⟩ |
      ⟨keyword, name, value, rfl⟩
  · exact fun _ _ => isFormed
  · exact fitsGroup_of_formed isFormed.1 isFormed.2
  · trivial
  · obtain ⟨-, -, -, valueFormed⟩ := isFormed
    exact ⟨trivial, .inl valueFormed⟩

theorem fitsStatement_of_formed (isFormed : stmt.Formed True) :
    (formed hard exhausted).allowance.FitsStatement stmt := by
  cases stmt with
  | expression value =>
    simp only [Allowance.FitsStatement]
    split
    · rename_i declares
      exact fitsDeclaration_of_formed declares isFormed
    · cases value with
      | block body => exact body_of_formed isFormed.2
      | choice keyword subject arms otherwise closing =>
        obtain ⟨-, subjectFormed, armsFormed, otherwiseFormed⟩ := isFormed
        exact ⟨.inl subjectFormed, fitsArms_of_formed armsFormed otherwiseFormed⟩
      | _ => exact .inl isFormed
  | conditional keyword branches otherwise => exact fitsArms_of_formed isFormed.1 isFormed.2
  | loop keyword condition body => exact ⟨.inl isFormed.1, body_of_formed isFormed.2⟩
  | each keyword item collection body => exact ⟨.inl isFormed.1, body_of_formed isFormed.2⟩
  | function keyword name params body => exact fun _ _ => isFormed
  | group keyword name body => exact fitsGroup_of_formed isFormed.1 isFormed.2
  | exported keyword declaration => exact fitsDeclaration_of_formed (isFormed.2 trivial) isFormed.1
  | leave | use => trivial

theorem formed_coherent : (formed hard exhausted).Coherent where
  expressions expression isFormed := by
    rcases isFormed with asValue | asBase
    · exact fits_of_formed (by decide) asValue
    · exact fits_of_formed (by decide) asBase
  statements _ isFormed := fitsStatement_of_formed isFormed
  bodies _ isFormed := body_of_formed isFormed
  programs _ valid := read_formed valid

end

end Demand

/-- A task that is no call. -/
def Visit.IsNoCall (visit : Visit) : Prop :=
  ∀ callee args, visit.task ≠ .evaluate (.call callee args)

/-- A task that imports no file from a working directory that was removed. -/
def Visit.IsSettled (visit : Visit) : Prop :=
  ∀ keyword path,
    visit.task = .execute (.use keyword path) →
    visit.machine.Reaches path.textValue

namespace Law

/-- A law that demands well-formed trees and leaves everything else open. -/
def formed (hard : Failure → Prop) (exhausted : hard .exhausted) : Law :=
  { lax fun _ => True with
    demand := .formed hard exhausted
    coherent := Demand.formed_coherent }

theorem formed_allowsImports (hard : Failure → Prop) (exhausted : hard .exhausted) :
    (formed hard exhausted).AllowsImports where
  alone := rfl
  numbered _ := trivial
  grouped _ _ _ _ _ _ _ := trivial

/-- What is allowed does not depend on how programs end. -/
theorem formed_allows {hard others : Failure → Prop} {exhausted : hard .exhausted}
    {machine : Machine} (allows : (formed hard exhausted).Allows machine)
    (othersExhausted : others .exhausted) : (formed others othersExhausted).Allows machine :=
  have scopes : ∀ ref,
      (formed others othersExhausted).AllowsScope machine.store (machine.store.scope ref) :=
    fun ref => { allows.store.scopes ref with }
  ⟨{ allows.store with scopes := scopes }, trivial, trivial, by simp [formed, lax]⟩

/-- Nothing ends a program but its bound, failing replacements and a removed working directory. -/
def safe : Law :=
  formed (fun failure =>
    failure = .exhausted ∨ Evaluator.OfReplacement failure ∨
      failure = .directoryRemoved) (.inl rfl)

theorem safe_isLoud : safe.IsLoud where
  toAllowsImports := formed_allowsImports _ _
  stranded := .inr (.inr rfl)
  replaces failure isReplacement := by
    obtain ⟨name, values, before, after, rfl, failed⟩ := isReplacement
    exact .inr (.inl ⟨name, values, before, after, rfl, failed⟩)

/-- No replacement ends a program, where a guard gives up at calls. -/
def callless : Law :=
  formed (fun failure =>
    failure = .exhausted ∨ failure = .unexpectedNode ∨ failure = .directoryRemoved) (.inl rfl)

open Classical in
theorem callless_governs (depth : Nat) :
    callless.Governs (evaluatorWithin Visit.IsNoCall depth) := by
  apply evaluatorWithin_governs
  · exact fun _ _ passes => passes
  · exact fun _ _ => .inr (.inl rfl)
  · exact fun _ callee args passes isCall => (passes callee args isCall).elim
  · exact fun _ visit _ path governs _ _ =>
      Evaluator.use_obeys governs (formed_allowsImports _ _) (.inl (.inr (.inr rfl)))

/-- No removed working directory ends a program, where a guard gives up at imports from there. -/
def settled : Law :=
  formed (fun failure =>
    failure = .exhausted ∨ failure = .unexpectedNode ∨
      Evaluator.OfReplacement failure) (.inl rfl)

open Classical in
theorem settled_governs (depth : Nat) :
    settled.Governs (evaluatorWithin Visit.IsSettled depth) := by
  apply evaluatorWithin_governs
  · exact fun _ _ passes => passes
  · exact fun _ _ => .inr (.inl rfl)
  · intro visit callee args _ _ failure isReplacement
    obtain ⟨name, values, before, after, rfl, failed⟩ := isReplacement
    exact .inr (.inr ⟨name, values, before, after, rfl, failed⟩)
  · exact fun _ visit keyword path governs passes isUse =>
      Evaluator.use_obeys governs (formed_allowsImports _ _) (.inr (passes keyword path isUse))

theorem possible_of_safe {failure : Failure} (fails : safe.demand.fails failure) :
    failure.Possible := by
  cases failure with
  | raised error => exact fails
  | unexpectedNode =>
    rcases fails with isSame | ⟨_, _, _, _, isSame, -⟩ | isSame <;> cases isSame
  | unknownGroup | directoryRemoved | exhausted => trivial

end Law

/-- A visit of a run at which a call fails in a replacement that names an unknown group. -/
def FailsInReplacement (depth : Nat) (code : Evaluator → Action α) (machine : Machine)
    (failure : Failure) : Prop :=
  ∃ level visit callee args,
    Visited depth code machine level visit ∧
      visit.task = .evaluate (.call callee args) ∧
      Evaluator.OfReplacement failure

/-- A visit of a run at which a file is imported from a working directory that was removed. -/
def FailsInRemovedDirectory (depth : Nat) (code : Evaluator → Action α) (machine : Machine)
    (failure : Failure) : Prop :=
  ∃ level visit keyword path,
    Visited depth code machine level visit ∧
      visit.task = .execute (.use keyword path) ∧
      visit.machine.registry.group? path.textValue = none ∧
      Path.isAbsolute path.textValue = false ∧
      visit.machine.world.directory.isLost = true ∧
      failure = .directoryRemoved

/-- An import that does not reach a file by its path is from a removed working directory. -/
theorem Machine.lost_of_not_reaches {machine : Machine} {name : String}
    (notReached : ¬ machine.Reaches name) :
    machine.registry.group? name = none ∧
      Path.isAbsolute name = false ∧ machine.world.directory.isLost = true := by
  obtain ⟨noGroup, noPath⟩ := Classical.not_imp.mp notReached
  unfold pathOf Path.absolute? at noPath
  split at noPath
  · exact (noPath rfl).elim
  rename_i isRelative
  split at noPath
  · rename_i isLost
    exact ⟨noGroup, Bool.eq_false_iff.mpr isRelative, isLost⟩
  · exact (noPath rfl).elim

namespace Session

/--
The machines that runs lead to: sources are run one after another in scopes of
a machine that started with an empty store, and everything outside of the store
may change between two runs.
-/
inductive Reached : Machine → Prop
  | fresh {machine : Machine} : machine.store = .empty → Reached machine
  | newRoot {machine : Machine} : Reached machine → Reached (Action.after (newRoot machine))
  | run {machine : Machine} (depth : Nat) (scope : Ref .scope) (text : String) : Reached machine →
      Reached (Action.after (run depth scope text machine))
  | elsewhere {machine other : Machine} : Reached machine → other.store = machine.store →
      Reached other

theorem Reached.allows {machine : Machine} (reached : Reached machine) :
    Law.safe.Allows machine := by
  induction reached with
  | @fresh machine isEmpty =>
    refine ⟨?_, trivial, trivial, by simp [Law.safe, Law.formed, Law.lax]⟩
    rw [isEmpty]
    exact .empty trivial
  | newRoot _ ih =>
    exact ih.withStore
      ((ih.store.newScope (.blank none)).mono (.newScope _ _))
  | run depth scope text _ ih =>
    exact run_allowed Law.safe_isLoud ih depth scope text
  | @elsewhere machine other _ same ih =>
    refine ⟨?_, trivial, trivial, by simp [Law.safe, Law.formed, Law.lax]⟩
    rw [same]
    exact ih.store

variable {machine : Machine} {depth : Nat} {scope : Ref .scope} {text : String}
  {failure : Failure} {after : Machine}

theorem run_isHard (failed : run depth scope text machine = .error failure after) :
    failure.IsHard := by
  rcases Action.bind_eq_error.mp failed with failed | ⟨_, _, -, failed⟩
  · cases failed
  · exact Evaluator.runNumbered_isHard failed

open Classical in
/-- Where a guard lets every visit of a run pass, the run ends as the guarded one may end. -/
theorem run_ends_as_guarded {hard : Failure → Prop} {exhausted : hard .exhausted}
    {guard : Visit → Prop} (allows : Law.safe.Allows machine)
    (governs : (Law.formed hard exhausted).Governs (evaluatorWithin guard depth))
    (passes : ∀ level visit,
      Visited depth (·.runSource scope text) machine level visit → guard visit)
    (failed : run depth scope text machine = .error failure after) : hard failure := by
  obtain ⟨_, attends⟩ := runSource_attended scope text machine
  obtain ⟨_, -, -, ends⟩ :=
    Evaluator.runSource_obeys governs (fun _ _ => trivial) scope text machine (.refl _)
      (Law.formed_allows allows exhausted)
  have same := (run_evaluatorWithin_of_passes passes attends).trans failed
  exact Demand.hard_of_fails (run_isHard failed) (ends.fails _ _ same)

/--
No task of a run fails with a fault that belongs to trees no valid text has:
such a fault would end the task that it arises in.  So nothing leaves a run early,
unless the bound on its steps is reached, but the failure of a replacement that
names an unknown group and that of a relative import from a working directory that
was removed.
-/
theorem run_reaches_no_impossible_branch
    {machine : Machine}
    (reached : Reached machine)
    (depth : Nat)
    (scope : Ref .scope)
    (text : String) :
    (∀ level visit failure after,
      Visited depth (·.runSource scope text) machine level visit →
      (evaluator level).answer visit = .error failure after →
      failure.Possible) ∧
    ∀ failure after,
      run depth scope text machine = .error failure after →
      failure = .exhausted ∨
        FailsInReplacement depth (·.runSource scope text) machine failure ∨
        FailsInRemovedDirectory depth (·.runSource scope text) machine failure := by
  have allows := reached.allows
  refine ⟨?_, ?_⟩
  · intro level visit failure after visited failed
    have admitted := visited_admitted Law.safe_isLoud allows visited
    have ends := (evaluator_governs Law.safe_isLoud level).answers visit admitted
    exact Law.possible_of_safe (ends.fails failure after failed)
  · intro failure after failed
    obtain ⟨_, -, -, ends⟩ := runSource_obeys_loudly Law.safe_isLoud depth scope text allows
    have fails := ends.fails failure after failed
    -- If the run came by no such visit, it could not have ended in this way.
    rcases Demand.hard_of_fails (run_isHard failed) fails with
      isExhausted | isReplacement | isStranded
    · exact .inl isExhausted
    · by_contra neither
      have noCall : ∀ level visit,
          Visited depth (·.runSource scope text) machine level visit → visit.IsNoCall :=
        fun level visit visited callee args isCall =>
          neither (.inr (.inl ⟨level, visit, callee, args, visited, isCall, isReplacement⟩))
      obtain ⟨_, _, _, _, rfl, -⟩ := isReplacement
      rcases run_ends_as_guarded allows (Law.callless_governs depth) noCall failed with
        isSame | isSame | isSame <;> cases isSame
    · by_contra neither
      have isSettled : ∀ level visit,
          Visited depth (·.runSource scope text) machine level visit → visit.IsSettled := by
        intro level visit visited keyword path isUse
        by_contra notReached
        obtain ⟨noGroup, isRelative, isLost⟩ := Machine.lost_of_not_reaches notReached
        exact neither (.inr (.inr
          ⟨level, visit, keyword, path, visited, isUse, noGroup, isRelative, isLost,
            isStranded⟩))
      subst isStranded
      rcases run_ends_as_guarded allows (Law.settled_governs depth) isSettled failed with
        isSame | isSame | ⟨_, _, _, _, isSame, -⟩ <;> cases isSame

/-- A replacement that names an unknown group does leave a run. -/
theorem run_reaches_no_impossible_branch_at_replacement :
    let machine := Action.after (newRoot {})
    let text := "use \"Regex\"\n@replace \"a\", \"a\", \"\\\\g<x>\""
    Reached machine ∧
      (∃ after, run 8 ⟨0⟩ text machine = .error (.unknownGroup "x") after) ∧
      FailsInReplacement 8 (·.runSource ⟨0⟩ text) machine (.unknownGroup "x") := by
  intro machine text
  have reached : Reached machine := .newRoot (.fresh rfl)
  have ends : Action.failure? (run 8 ⟨0⟩ text machine) = some (.unknownGroup "x") := by
    decide +kernel
  obtain ⟨after, failed⟩ := Action.exists_of_failure? ends
  have leaves := (run_reaches_no_impossible_branch reached 8 ⟨0⟩ text).2 _ _ failed
  refine ⟨reached, ⟨after, failed⟩, (leaves.resolve_left (by simp)).resolve_right ?_⟩
  rintro ⟨_, _, _, _, -, -, -, -, -, isSame⟩
  cases isSame

/-- A relative import leaves a run whose working directory was removed; no native failed. -/
theorem run_leaves_removed_directory :
    let files : FileTree := { entries := [(["sub"], .directory)] }
    let machine := Action.after (newRoot { world := { files := files, directory := ["sub"] } })
    let text := "use \"IO\"\n@del_dir \"../sub\"\nuse \"x\""
    Reached machine ∧
      ∃ after,
        run 8 ⟨0⟩ text machine = .error .directoryRemoved after ∧
          ¬ FailsInReplacement 8 (·.runSource ⟨0⟩ text) machine .directoryRemoved := by
  intro files machine text
  have reached : Reached machine := .newRoot (.fresh rfl)
  have ends : Action.failure? (run 8 ⟨0⟩ text machine) = some .directoryRemoved := by
    decide +kernel
  obtain ⟨after, failed⟩ := Action.exists_of_failure? ends
  refine ⟨reached, after, failed, ?_⟩
  rintro ⟨_, _, _, _, -, -, _, _, _, _, isSame, -⟩
  cases isSame

end Session

end ArrowScript

import ArrowScript.Proofs.Evaluation.Faithful
import ArrowScript.Proofs.Native.Lawful
import ArrowScript.Session

namespace ArrowScript

/-!
# Runs keep to laws

Every construct obeys a law as long as the evaluations nested inside it do, since
obeying is a discipline, so the evaluators of all depths do by induction.  What is
brought in by imports must be allowed.
-/

open ArrowScript.Law

variable {value : Value} {name : String} {path : Token} {task : Task}

variable {law : Law} {within : Store}

/-- A law without a silent side that allows every import. -/
structure Law.AllowsImports (law : Law) : Prop where
  alone : law.silent = none
  numbered : ∀ count, law.sources count
  grouped : ∀ known : Registry, law.registry known →
    ∀ name, ∀ natives ∈ known.group? name, ∀ each ∈ natives, law.native each

/-- A failing replacement fails as the law allows. -/
def Law.AllowsReplacements (law : Law) : Prop :=
  ∀ failure, Evaluator.OfReplacement failure → law.demand.fails failure

/-- A law without a silent side that allows every import and all failures of scripts. -/
structure Law.IsLoud (law : Law) : Prop extends law.AllowsImports where
  stranded : law.demand.fails .directoryRemoved := by
    exact Demand.nothing_fails .directoryRemoved
  replaces : law.AllowsReplacements := by
    exact fun failure _ => Demand.nothing_fails failure

namespace Evaluator

variable {actual : Evaluator} {frame : Frame} {machine : Machine}

theorem innerFrame_permits (frame : Frame) :
    law.Permits within (innerFrame frame) fun _ _ => True := by
  have opened :
      law.Permits within (Action.changeGet (·.newScope (.child frame.scope))) fun _ _ => True :=
    .changeGet (fun _ _ allows => allows.newScope (.blank _)) (fun store => .newScope store _)
      fun _ => trivial
  exact opened.bind fun _ _ _ _ => .done _

theorem setContext_permits {context : Option Value}
    (allowed : ∀ value ∈ context, law.value within value) :
    law.Permits within (setContext frame context) fun _ _ => True := by
  apply Permits.change
  · intro store isLater allows
    apply allows.modifyScope
    apply (allows.scopes frame.scope).setContext
    exact fun value mem => law.later _ _ isLater value (allowed value mem)
  · exact fun store => .modifyScope store _ _

theorem defineVariable_permits {entry : Entry Value} (place : Option Position) (ref : Ref .scope)
    (name : String) (allowed : law.value within entry.value) :
    law.Permits within (Action.define place ref fun scope => scope.defineVariable name entry)
      fun _ _ => True := by
  intro machine isLater allows
  apply permitsAt_define _ allows
  exact fun defined ran =>
    (allows.store.scopes ref).defineVariable (law.later _ _ isLater _ allowed) ran

theorem bindParameters_permits (ref : Ref .scope) {bindings : List (String × Value)}
    (allowed : ∀ binding ∈ bindings, law.value within binding.2) :
    law.Permits within (bindParameters ref bindings) fun _ _ => True := by
  induction bindings generalizing within with
  | nil => exact .done ()
  | cons binding rest ih =>
    obtain ⟨first, restAllowed⟩ := List.forall_mem_cons.mp allowed
    exact (defineVariable_permits _ _ _ first).bind fun _ isLater _ _ =>
      ih fun each mem => law.later _ _ isLater _ (restAllowed each mem)

theorem setVariable_permits (owner : Ref .scope) (name : String)
    (allowed : law.value within value) :
    law.Permits within (Action.change (·.setVariable owner name value)) fun _ _ => True := by
  apply Permits.change
  · intro store isLater allows
    exact allows.modifyScope
      ((allows.scopes owner).assign (law.later _ _ isLater _ allowed) name)
  · exact fun store => .modifyScope store _ _

theorem overwrite_permits (name : Token) (allowed : law.value within value) :
    law.Permits within (overwrite frame name value) law.value := by
  apply (Permits.search _ _).bind
  intro later isLater owner _
  have stillAllowed := law.later _ _ isLater _ allowed
  apply (setVariable_permits owner _ stillAllowed).bind
  exact fun _ isLatest _ _ => .pure fun _ isLast =>
    law.later _ _ (isLatest.trans isLast) _ stillAllowed

theorem functionNamed_permits (evaluator : Evaluator) (name : Token) :
    law.Permits within (evaluator.resolveCallee frame (.functionName name)) law.known := by
  have known : law.Permits within (fun machine => .ok machine.registry machine : Action Registry)
      fun _ => law.registry :=
    .look (fun machine => registry_twin law machine) fun _ allows => allows.registry
  apply known.bind
  intro later _ registry isKnown
  have found : law.Permits later (Action.lookUp (some name.start) fun store =>
      store.functionNamed registry frame.scope name.textValue) fun _ => law.function :=
    .lookUp fun _ _ allows found => allows.functionNamed isKnown found
  exact found.bind fun _ _ _ allowed => .pure fun _ _ => allowed

theorem member_permits (kind : NameKind) (group : Group) (name : String) (place : Position) :
    law.Permits within (Action.lookUp (some place) fun store =>
      store.member kind (Scope.names kind) group.scope frame.scope name) law.known := by
  cases kind with
  | variableName => exact .lookUp fun _ _ allows found => allows.member found
  | functionName => exact .lookUp fun _ _ allows found => allows.memberFunction found
  | groupName => exact .search _ _

theorem openBody_permits (frame : Frame) {bindings : List (String × Value)}
    (allowed : ∀ binding ∈ bindings, law.value within binding.2) :
    law.Permits within (openBody frame bindings) fun _ _ => True := by
  apply (innerFrame_permits frame).bind
  intro _ isLater inner _
  have bound := bindParameters_permits inner.scope fun binding mem =>
    law.later _ _ isLater _ (allowed binding mem)
  exact bound.bind fun _ _ _ _ => .done inner

theorem declareFunction_permits {name : Token} {params : List Token} {body : Block}
    (isPublic : Bool) (allowed : law.demand.allowance.defines name params body) :
    law.Permits within (declareFunction frame name params body isPublic) fun _ _ => True := by
  have defined : law.Permits within (Action.define (some name.start) frame.scope fun scope =>
      scope.defineFunction name.textValue
        { value :=
            .user ⟨name.textValue, params.map Token.lexeme, body, frame.scope, frame.source⟩
          isPublic := isPublic })
      fun _ _ => True := by
    intro machine _ allows
    apply permitsAt_define _ allows
    intro scope ran
    refine (allows.store.scopes frame.scope).defineFunction ?_ ran
    exact allowed frame.scope frame.source
  exact defined.bind fun _ _ _ _ => .trace (by omega)

theorem newObject_permits {object : Object}
    (allowed : ∀ item ∈ object, law.value within item.key ∧ law.value within item.value) :
    law.Permits within (newObject object) law.value := by
  have made : law.Permits within (Action.changeGet (·.newObject object))
      fun store ref => ref.index < store.objects.size := by
    apply Permits.changeGet
    · intro store isLater allows
      exact allows.newObject fun item mem =>
        (allowed item mem).imp (law.later _ _ isLater _) (law.later _ _ isLater _)
    · exact fun store => .of_objects (by simp)
    · exact fun store => by simp [Store.newObject]
  exact made.bind fun later _ ref isThere => .pure fun store isLater =>
    law.object store ref (Nat.lt_of_lt_of_le isThere isLater.objects)

theorem newSource_permits (numbered : ∀ count, law.sources count → law.sources (count + 1)) :
    law.Permits within newSource fun _ _ => True := by
  intro machine _ allows
  have counted := numbered machine.sources allows.sources
  refine .of_ok rfl ?_ (allows.of_same allows.store counted rfl rfl rfl) (.refl machine.store)
    trivial
  unfold newSource twin
  split <;> rfl

theorem foldl_writeLine_withFiles (lines : List String) (world : World) (files : FileTree) :
    lines.foldl World.writeLine (world.withFiles files) =
      (lines.foldl World.writeLine world).withFiles files := by
  induction lines generalizing world with
  | nil => rfl
  | cons line rest ih => exact ih (world.writeLine line)

theorem newRoot_permits : law.Permits within Session.newRoot fun _ _ => True :=
  .changeGet (fun _ _ allows => allows.newScope (.blank none)) (fun store => .newScope store _)
    fun _ => trivial

theorem merge_permits {library : Scope} (place : Token)
    (allowed : law.AllowsScope machine.store library) :
    law.PermitsAt (mergeScope frame place library) (fun _ _ => True) machine := by
  intro allows
  have merges : law.PermitsAt (Action.changeGet fun store => (store.merge frame.scope library).swap)
      (fun _ _ => True) machine :=
    permitsAt_changeGet
      (allows.store.setScope ((allows.store.scopes frame.scope).mergeFrom allowed))
      (.setScope machine.store _ _) trivial
  have merged := merges allows
  apply Ends.bind rfl rfl merged
  intro fault after ended
  have afterAllows := merged.allows
  rw [ended] at afterAllows
  cases fault with
  | none => exact Permits.done () after (.refl _) afterAllows
  | some fault =>
    have possible := law.demand.possible (.scope fault) trivial
    exact Permits.raiseAt place possible after (.refl _) afterAllows

theorem useGroup_obeys {natives : List Native}
    (isGroup : machine.registry.group? path.textValue = some natives)
    (allowed : ∀ native ∈ natives, law.native native) :
    ObeysAt law actual (·.use frame path) (fun _ _ => True) machine := by
  have found : law.PermitsAt (fun machine => .ok (machine.registry.group? path.textValue) machine)
      (fun _ found => found = some natives) machine :=
    permitsAt_look (by rw [registry_twin]) isGroup
  apply Obeys.bindAt (Obeys.aloneAt found)
  rintro _ after ran - rfl
  refine Obeys.behind (.trace (by omega)) (fun _ _ _ _ => ?_) after (.refl _)
  exact .alone fun machine _ => merge_permits path (.ofNatives allowed)

theorem useAbsent_obeys (noGroup : machine.registry.group? path.textValue = none)
    (obeys : ObeysAt law actual (·.useFile frame path path.textValue) (fun _ _ => True) machine) :
    ObeysAt law actual (·.use frame path) (fun _ _ => True) machine := by
  have found : law.PermitsAt (fun machine => .ok (machine.registry.group? path.textValue) machine)
      (fun _ found => found = none) machine :=
    permitsAt_look (by rw [registry_twin]) noGroup
  apply Obeys.bindAt (Obeys.aloneAt found)
  intro group after ran _ isAbsent
  have same : machine = after := by
    cases ran
    rfl
  subst same isAbsent
  exact obeys

/-- Looking up a path obeys a law that allows that the working directory was removed. -/
theorem absolutePath_obeys
    (named : law.demand.fails .directoryRemoved ∨ (machine.pathOf name).isSome) :
    ObeysAt law actual (fun _ => Action.absolutePath name)
      (fun _ path => machine.pathOf name = some path) machine := by
  have looked : law.PermitsAt (fun machine => .ok (machine.pathOf name) machine)
      (fun _ path => path = machine.pathOf name) machine := by
    refine permitsAt_look ?_ rfl
    unfold Machine.pathOf
    rw [directory_twin]
  apply Obeys.bindAt (Obeys.aloneAt looked)
  rintro _ after ran - rfl
  cases ran
  cases isPath : machine.pathOf name with
  | none =>
    have stranded := named.resolve_right (by simp [isPath])
    exact Obeys.aloneAt (Permits.throw stranded machine (.refl _))
  | some path =>
    have given : law.Permits machine.store (pure path : Action String)
        fun _ found => some path = some found :=
      .pure fun _ _ => rfl
    exact Obeys.aloneAt (given machine (.refl _))

/-- Without a silent side, a file is found or refused as the law allows. -/
theorem findFile_obeys (imports : law.AllowsImports) (place : Token)
    (named : law.demand.fails .directoryRemoved ∨ (machine.pathOf name).isSome) :
    ObeysAt law actual (fun _ => findFile place name) (fun _ _ => True) machine := by
  have look : ∀ {within : Store} {α : Type} (view : Machine → α),
      law.Permits within (fun machine => .ok (view machine) machine : Action α) fun _ _ => True :=
    fun view => .look (fun machine => by simp only [twin, imports.alone]) fun _ _ => trivial
  have refused : ∀ fault : Fault, fault.Possible → law.demand.fault fault := law.demand.possible
  apply Obeys.bindAt (absolutePath_obeys named)
  intro path after _ _ _
  refine Obeys.behind (look _) (fun _ _ isFile _ => ?_) after (.refl _)
  simp only
  split
  · exact .raiseAt_bind (refused _ trivial)
  apply Obeys.behind (look _)
  intro _ _ isImporting _
  split
  · exact .raiseAt_bind (refused _ trivial)
  apply Obeys.behind (.trace (by omega))
  intro _ _ _ _
  apply Obeys.behind (look _)
  intro _ _ content _
  split
  · exact .alone (.raiseAt _ (refused _ trivial))
  · exact .alone (.done _)

end Evaluator

/-- Obeying a law is a habit, whatever the ground is. -/
def Law.habit (law : Law) (actual : Evaluator) : Habit ⟨.empty, 0⟩ law.knowledge where
  Holds within _ right := Obeys law actual within right law.known
  Later := Store.Precedes
  grows := knowledge_within
  pure result known :=
    .alone (.pure fun _ isLater => Carried.grow (knowledge_within isLater) result known)
  bind holds next := holds.bind next

section

variable {actual : Evaluator} {frame : Frame} {machine : Machine} (governs : law.Governs actual)
  {stmts : List Stmt}

include governs

theorem Law.executes
    (allowed : ∀ stmt ∈ stmts, law.demand.task (.execute stmt)) (frame : Frame) :
    (law.habit actual).Executes frame stmts :=
  fun _ stmt mem => .perform governs frame (allowed stmt mem)

/-- The scope of a group is still there when its body has run. -/
theorem Evaluator.declareGroup_obeys {name : Token} {body : Block} (isPublic : Bool)
    (allowed : law.demand.allowance.group name body) :
    Obeys law actual within (·.declareGroup frame name body isPublic) fun _ _ => True := by
  intro machine _
  apply Obeys.bindAt (Obeys.aloneAt (innerFrame_permits frame machine (.refl _)))
  intro inner opened opens _ _
  have isOpen : opened.store.HasScope inner.scope := by
    cases opens
    exact Store.hasScope_of_push_new rfl
  apply Obeys.bindAt
    ((law.habit actual).executeBody (law.executes governs allowed.1 inner) opened (.refl _))
  intro completion after ran bodyPrecedes _
  cases completion with
  | broke keyword outcome =>
    rcases allowed.2 with mayBreak | noBreaks
    · exact Obeys.raiseAt_bind mayBreak after (.refl _)
    · have breaks :=
        executeAll_breaks governs.breaks inner .nothing body.statements opened _ after ran
      rw [noBreaks] at breaks
      cases breaks
  | normal outcome =>
    have existing : after.store.HasScope inner.scope := bodyPrecedes.scopes.hasScope isOpen
    have made : law.PermitsAt (Action.changeGet (·.newGroup ⟨name.lexeme, inner.scope⟩))
        (fun _ _ => True) after := by
      intro allows
      exact permitsAt_changeGet (allows.store.newGroup existing) (.newGroup after.store _) trivial
        allows
    apply Obeys.bindAt (Obeys.aloneAt made)
    intro group later makes _ _
    have isThere : group.index < later.store.groups.size := by
      cases makes
      simp
    have defined :
        law.PermitsAt
          (Action.define (some name.start) frame.scope fun scope =>
            scope.defineGroup name.lexeme { value := group, isPublic := isPublic })
          (fun _ _ => True) later := by
      intro allows
      apply permitsAt_define _ allows
      exact fun defined ran => (allows.store.scopes frame.scope).defineGroup isThere ran
    apply Obeys.bindAt (Obeys.aloneAt defined)
    exact fun _ final _ _ _ => Obeys.aloneAt (Permits.trace (by omega) final (.refl _))

/-- Obeying a law is a discipline of every frame. -/
def Law.discipline (frame : Frame) :
    Discipline ⟨.empty, 0⟩ law.knowledge law.demand.allowance frame where
  toHabit := law.habit actual
  keepingContext holds :=
    holds.keepingContext frame.scope fun _ _ result isLater known =>
      Carried.grow (knowledge_within isLater) result known
  rounds holds := (holds actual.rounds).congr fun _ sameRounds => by rw [sameRounds]
  evaluate allowed := .perform governs frame allowed
  executeBlock allowed :=
    Habit.executeBlock _ (law.executes governs allowed)
      (Obeys.alone (Evaluator.innerFrame_permits frame))
  runEach allowed known :=
    Habit.runEach _ (law.executes governs allowed)
      (Obeys.alone (Evaluator.openBody_permits frame (List.forall_mem_singleton.mpr known)))
  declareGroup isPublic allowed := Evaluator.declareGroup_obeys governs isPublic allowed
  raiseAt token allowed := .alone (.raiseAt token allowed)
  exhausted := .alone (.throw law.demand.exhausted)
  strays allowed := .alone (.throw allowed)
  viewItems ref _ _ known := .alone (.inspect fun _ allows => known _ _ (allows.items ref))
  viewObject ref _ _ _ known := .alone (.inspect fun _ allows => known _ _ (allows.object ref))
  text _ := .alone (.glance _)
  group _ := .alone (.glance _)
  hasGroup _ _ := .alone (.glance _)
  context _ := .alone (.inspect fun _ allows => (allows.scopes frame.scope).context)
  readVariable _ := .alone (.lookUp fun _ _ allows found => allows.variableNamed found)
  overwrite name known := .alone (Evaluator.overwrite_permits name known)
  functionNamed name := .alone (Evaluator.functionNamed_permits actual name)
  groupNamed _ := .alone (.search _ _)
  member kind group name place := .alone (Evaluator.member_permits kind group name place)
  setContext _ known := .alone (Evaluator.setContext_permits known)
  traceCondition _ _ := .alone (.trace (by omega))
  declareVariable _ _ known :=
    .alone ((Evaluator.defineVariable_permits _ _ _ known).bind fun _ _ _ _ => .trace (by omega))
  declareFunction isPublic allowed :=
    .alone (Evaluator.declareFunction_permits isPublic allowed)
  changeItems ref _ _ _ known :=
    .alone (Native.modifyArray_permits ref fun _ isLater => known _ (knowledge_within isLater))
  newArray known := .alone (Native.newArray_permits known)
  newObject known := .alone (Evaluator.newObject_permits known)

theorem Law.special : (law.discipline governs frame).Special where
  assignKey :=
    (law.discipline governs frame).assignKey fun _ ref _ _ keyKnown known =>
      .alone <| .change
        (fun _ isLater allows =>
          allows.setKey ref (law.later _ _ isLater _ keyKnown) (law.later _ _ isLater _ known))
        fun _ => .of_objects (Nat.le_of_eq Array.size_modify.symm)
  assignMember :=
    (law.discipline governs frame).assignMember fun _ owner name _ known =>
      .alone (Evaluator.setVariable_permits owner name known)

theorem Law.calling (replaces : law.AllowsReplacements) :
    (law.discipline governs frame).Calling where
  inCall site holds := holds.inCall site
  trace _ _ := .alone (.trace (by omega))
  callFunction {_ fn _} functionKnown known := by
    cases fn with
    | native native => exact .alone (Native.call_permits replaces functionKnown known)
    | user fn =>
      apply Habit.callUser _ _ (law.executes governs (law.coherent.bodies fn functionKnown))
      exact .alone (Evaluator.openBody_permits _ fun binding mem =>
        known binding.2 (List.of_mem_zip mem).2)

namespace Evaluator

theorem evaluateCall_obeys (replaces : law.AllowsReplacements) {callee : Expr}
    {args : List Expr} (allowed : law.demand.task (.evaluate (.call callee args))) :
    Obeys law actual within (·.evaluateCall frame callee args) law.value :=
  (law.discipline governs frame).evaluateCall (law.calling governs replaces) within
    (law.coherent.expressions _ allowed)

/-- One step of a task obeys the law if the call or the import that it may be is allowed. -/
theorem step_obeys (allowed : law.demand.task task) (replaces : ∀ callee args,
      task = .evaluate (.call callee args) → law.AllowsReplacements)
    (uses : ∀ keyword path, task = .execute (.use keyword path) →
      ObeysAt law actual (·.use frame path) (fun _ _ => True) machine) :
    ObeysAt law actual (·.step frame task) (law.result task) machine := by
  cases task with
  | evaluate expr =>
    refine (law.discipline governs frame).evaluateExpression (law.special governs) machine.store
      (law.coherent.expressions _ allowed) ?_ machine (.refl _)
    rintro callee args rfl
    exact evaluateCall_obeys governs (replaces callee args rfl) allowed
  | execute stmt =>
    by_cases isUse : ∃ keyword path, stmt = .use keyword path
    · obtain ⟨keyword, path, rfl⟩ := isUse
      apply Obeys.bindAt (uses keyword path rfl)
      have ends : law.Permits machine.store (Pure.pure (Completion.normal .nothing))
          fun store completion => law.value store completion.outcome.value :=
        .pure fun store _ => law.plain store _ rfl
      exact fun _ after _ precedes _ => Obeys.aloneAt (ends after precedes)
    · refine (law.discipline governs frame).executeStatement machine.store
        (law.coherent.statements _ allowed) ?_ machine (.refl _)
      exact fun keyword path same => (isUse ⟨keyword, path, same⟩).elim

/-- A program whose errors are reported may break outside of everything. -/
theorem reportProgram_obeys
    (allowed : ∀ stmt ∈ stmts, law.demand.task (.execute stmt)) :
    Obeys law actual within (fun evaluator => reporting (evaluator.executeProgram frame stmts))
      fun _ _ => True := by
  induction stmts generalizing within with
  | nil => exact .alone (.done true)
  | cons stmt rest ih =>
    obtain ⟨first, later⟩ := List.forall_mem_cons.mp allowed
    have executed :
        Obeys law actual within (·.execute frame stmt) (law.result (.execute stmt)) :=
      .perform governs frame first
    refine Obeys.congr (executed.attempt.bind ?_) fun _ _ => reporting_bind _ _
    intro _ _ result _
    cases result with
    | none => exact .alone (.done false)
    | some completion =>
      cases completion with
      | normal outcome => exact ih later
      | broke keyword outcome =>
        exact .alone ((Obeys.writeLine_permits _).bind fun _ _ _ _ => .done false)

theorem interpret_obeys
    (allowed : ∀ stmt ∈ stmts, law.demand.task (.execute stmt)) :
    Obeys law actual within (·.interpret frame stmts) fun _ _ => True := by
  apply Obeys.behind (.trace (by omega))
  intro _ _ _ _
  apply (reportProgram_obeys governs allowed).bind
  intro _ _ success _
  exact .alone ((Permits.trace (by omega)).bind fun _ _ _ _ => .done success)

theorem runNumbered_obeys (text : String) :
    Obeys law actual within (·.runNumbered frame text) fun _ _ => True := by
  apply Obeys.behind (.changeWorld (foldl_writeLine_withFiles _))
  intro _ _ _ _
  split
  · rename_i valid
    apply (interpret_obeys governs (law.coherent.programs text valid)).bind
    exact fun _ _ _ _ => .alone (.done _)
  · exact .alone (.done _)

theorem runSource_obeys (numbered : ∀ count, law.sources count → law.sources (count + 1))
    (scope : Ref .scope) (text : String) :
    Obeys law actual within (·.runSource scope text) fun _ _ => True :=
  .behind (newSource_permits numbered) fun _ _ _ _ => runNumbered_obeys governs text

/-- Without a silent side, importing a file obeys the law as its program does. -/
theorem useFile_obeys (imports : law.AllowsImports) (place : Token)
    (named : law.demand.fails .directoryRemoved ∨ (machine.pathOf name).isSome) :
    ObeysAt law actual (·.useFile frame place name) (fun _ _ => True) machine := by
  apply Obeys.bindAt (findFile_obeys imports place named)
  intro file after _ _ _
  refine Obeys.behind newRoot_permits (fun opened _ imported _ => ?_) after (.refl _)
  have obeys : Obeys law actual opened (·.runSource imported file.2) fun _ _ => True :=
    runSource_obeys governs (fun _ _ => imports.numbered _) imported file.2
  apply (obeys.whileImporting file.1).bind
  intro _ _ result _
  split
  · exact .raiseAt_bind (law.demand.possible _ trivial)
  intro machine _
  apply Obeys.bindAt
    (Obeys.aloneAt (Permits.glance (fun store => store.scope imported) machine (.refl _)))
  intro library after looks _ _
  cases looks
  intro allows
  exact Obeys.aloneAt (merge_permits place (allows.store.scopes imported)) allows

theorem use_obeys (imports : law.AllowsImports)
    (named : law.demand.fails .directoryRemoved ∨ machine.Reaches path.textValue) :
    ObeysAt law actual (·.use frame path) (fun _ _ => True) machine := by
  intro allows
  cases isGroup : machine.registry.group? path.textValue with
  | some natives =>
    have allowed := imports.grouped machine.registry allows.registry _ natives isGroup
    exact useGroup_obeys isGroup allowed allows
  | none =>
    have fileNamed := named.imp_right fun reaches => reaches isGroup
    exact useAbsent_obeys isGroup (useFile_obeys governs imports path fileNamed) allows

end Evaluator

end

/-- The evaluator that gives up at visits that a guard does not let pass. -/
def evaluatorWithin (guard : Visit → Prop) [DecidablePred guard] : Nat → Evaluator
  | 0 => evaluator 0
  | depth + 1 =>
    { rounds := depth
      evaluate := fun frame expr machine =>
        if guard ⟨frame, .evaluate expr, machine⟩ then
          (evaluatorWithin guard depth).evaluateExpression frame expr machine
        else .error .unexpectedNode machine
      execute := fun frame stmt machine =>
        if guard ⟨frame, .execute stmt, machine⟩ then
          (evaluatorWithin guard depth).executeStatement frame stmt machine
        else .error .unexpectedNode machine }

theorem evaluatorWithin_always (depth : Nat) :
    evaluatorWithin (fun _ => True) depth = evaluator depth := by
  induction depth with
  | zero => rfl
  | succ depth ih =>
    simp only [evaluatorWithin, ih, if_true]
    rfl

section

variable {guard : Visit → Prop} [DecidablePred guard]

theorem evaluatorWithin_passes {frame : Frame} {machine : Machine} (depth : Nat)
    (passes : guard ⟨frame, task, machine⟩) :
    (evaluatorWithin guard (depth + 1)).perform frame task machine =
      (evaluatorWithin guard depth).step frame task machine := by
  cases task <;> exact if_pos passes

theorem evaluatorWithin_stops {frame : Frame} {machine : Machine} (depth : Nat)
    (stops : ¬ guard ⟨frame, task, machine⟩) :
    (evaluatorWithin guard (depth + 1)).perform frame task machine =
      .error .unexpectedNode machine := by
  cases task <;> exact if_neg stops

theorem evaluatorWithin_breaksByText (depth : Nat) :
    (evaluatorWithin guard depth).BreaksByText := by
  induction depth with
  | zero => exact evaluator_breaksByText 0
  | succ depth ih =>
    intro frame stmt machine completion final ended
    by_cases passes : guard ⟨frame, .execute stmt, machine⟩
    · have stepped :
          (evaluatorWithin guard depth).step frame (.execute stmt) machine =
            .ok completion final :=
        (evaluatorWithin_passes depth passes).symm.trans ended
      exact Evaluator.executeStatement_breaks ih frame stmt machine
        completion final stepped
    · have stopped := (evaluatorWithin_stops depth passes).symm.trans ended
      cases stopped

/-- A law governs the evaluators of all depths if it governs the calls and the imports that a guard
lets pass. -/
theorem evaluatorWithin_governs (alike : ∀ visit, law.Allows visit.machine → guard visit →
      guard ⟨visit.frame, visit.task, law.twin visit.machine⟩)
    (stops : ∀ visit, ¬ guard visit → law.demand.hard .unexpectedNode)
    (replaces : ∀ visit callee args, guard visit →
      visit.task = .evaluate (.call callee args) → law.AllowsReplacements)
    (uses : ∀ actual visit keyword path, law.Governs actual → guard visit →
      visit.task = .execute (.use keyword path) →
      ObeysAt law actual (·.use visit.frame path) (fun _ _ => True) visit.machine)
    (depth : Nat) : law.Governs (evaluatorWithin guard depth) := by
  refine ⟨?_, evaluatorWithin_breaksByText depth⟩
  induction depth with
  | zero =>
    rintro ⟨frame, task, machine⟩ ⟨-, allows⟩
    have stopped : law.demand.fails .exhausted := law.demand.exhausted
    cases task <;> exact Permits.throw stopped machine (.refl _) allows
  | succ depth ih =>
    intro visit admits
    have governs : law.Governs (evaluatorWithin guard depth) :=
      ⟨ih, evaluatorWithin_breaksByText depth⟩
    unfold Evaluator.answer
    by_cases passes : guard visit
    · have stepped :=
        Evaluator.step_obeys governs admits.task
          (fun callee args => replaces visit callee args passes)
          (fun keyword path => uses _ visit keyword path governs passes)
      obtain ⟨visits, -, -, ends⟩ := stepped admits.machine
      rw [evaluatorWithin_passes depth passes,
        evaluatorWithin_passes depth (alike visit admits.machine passes)]
      exact ends
    · rw [evaluatorWithin_stops depth passes]
      refine ⟨admits.machine, .refl _, fun value final ended => (by cases ended), ?_, ?_⟩
      · rintro failure final ⟨⟩
        exact stops visit passes
      · exact fun notGivenUp => (notGivenUp visit.machine rfl).elim

end

theorem evaluator_governs (isLoud : law.IsLoud) (depth : Nat) : law.Governs (evaluator depth) := by
  rw [← evaluatorWithin_always]
  apply evaluatorWithin_governs
  · exact fun _ _ passes => passes
  · exact fun _ stops => (stops trivial).elim
  · exact fun _ _ _ _ _ => isLoud.replaces
  · exact fun actual visit keyword path governs _ _ =>
      Evaluator.use_obeys governs isLoud.toAllowsImports (.inl isLoud.stranded)

theorem Visited.admitted {depth level : Nat} {code : Evaluator → Action α}
    {machine : Machine} {visit : Visit} {post : Store → α → Prop} (isLoud : law.IsLoud)
    (obeys : ObeysAt law (evaluator depth) code post machine) (allows : law.Allows machine)
    (visited : Visited depth code machine level visit) : law.Admits visit := by
  induction visited with
  | first calls =>
    obtain ⟨visits, attends, admitted, -⟩ := obeys allows
    exact admitted _ (attends.mem_of_calls calls)
  | @next level outer inner visited calls ih =>
    have governs := evaluator_governs isLoud level
    have stepped :
        ObeysAt law (evaluator level) (·.step outer.frame outer.task) (law.result outer.task)
          outer.machine := by
      apply Evaluator.step_obeys governs ih.task
      · exact fun _ _ _ => isLoud.replaces
      · exact fun keyword path _ =>
          Evaluator.use_obeys governs isLoud.toAllowsImports (.inl isLoud.stranded)
    obtain ⟨visits, attends, admitted, -⟩ := stepped ih.machine
    exact admitted _ (attends.mem_of_calls calls)

end ArrowScript

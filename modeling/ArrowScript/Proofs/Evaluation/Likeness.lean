import ArrowScript.Proofs.Evaluation.Touch

namespace ArrowScript

/-!
# Code that goes on alike

Machines may be alike that differ in what a touch changes.  Whatever code does
by itself misses the touch, so code goes on alike on such machines, as long as
what is nested inside it does.
-/

open ArrowScript.Action

/-- Ends that are the same, but for machines that are alike. -/
inductive EndsAlike {α : Type} (Alike : Machine → Machine → Prop) (start : Machine) :
    EStateM.Result Failure Machine α → EStateM.Result Failure Machine α → Prop
  | ok {value : α} {final other : Machine} : start.store.Grows final.store →
    Alike final other →
      EndsAlike Alike start (.ok value final) (.ok value other)
  | error {failure : Failure} {final other : Machine} : start.store.Grows final.store →
      Alike final other → EndsAlike Alike start (.error failure final) (.error failure other)

/-- Machines that are alike, and the scopes in which statements go on alike. -/
structure Likeness (touch : Touch) where
  Alike : Machine → Machine → Prop
  Open : Ref .scope → Prop
  fresh {machine other : Machine} : Alike machine other → Open machine.nextScope
  misses {α : Type} {action : Action α} {machine other : Machine} :
    touch.Misses action →
    Alike machine other →
    EndsAlike Alike machine (action machine) (action other)
  setContext {machine other : Machine} (ref : Ref .scope) (context : Option Value) :
    Alike machine other →
    Alike (machine.modifyStore (·.setContext ref context))
      (other.modifyStore (·.setContext ref context))
  restore {machine other final otherFinal : Machine} (ref : Ref .scope) :
    Alike machine other →
    Alike final otherFinal →
    Alike (final.modifyStore (·.setContext ref (machine.store.scope ref).context))
      (otherFinal.modifyStore (·.setContext ref (other.store.scope ref).context))

variable {α β : Type} {left right action : Action α} {leftNext rightNext : α → Action β}
  {machine other : Machine}

variable {Alike : Machine → Machine → Prop}

theorem EndsAlike.since {middle : Machine} {ended otherEnded : EStateM.Result Failure Machine α}
    (ends : EndsAlike Alike middle ended otherEnded) (grows : machine.store.Grows middle.store) :
    EndsAlike Alike machine ended otherEnded := by
  cases ends with
  | ok growsThen alike => exact .ok (grows.trans growsThen) alike
  | error growsThen alike => exact .error (grows.trans growsThen) alike

theorem EndsAlike.bind (ends : EndsAlike Alike machine (left machine) (right other))
    (next : ∀ value middle otherMiddle, left machine = .ok value middle →
      machine.store.Grows middle.store → Alike middle otherMiddle →
      EndsAlike Alike middle (leftNext value middle) (rightNext value otherMiddle)) :
    EndsAlike Alike machine ((left >>= leftNext) machine) ((right >>= rightNext) other) := by
  generalize ran : left machine = leftEnd at ends
  generalize otherRan : right other = rightEnd at ends
  cases ends with
  | @ok value middle otherMiddle grows alike =>
    rw [bind_of_ok ran, bind_of_ok otherRan]
    exact (next value middle otherMiddle ran grows alike).since grows
  | error grows alike =>
    rw [bind_of_error ran, bind_of_error otherRan]
    exact .error grows alike

namespace Likeness

variable {touch : Touch} {like : Likeness touch}

/-- Two actions go on alike. -/
def Runs (like : Likeness touch) (left right : Action α) : Prop :=
  ∀ machine other,
    like.Alike machine other →
    EndsAlike like.Alike machine (left machine) (right other)

/-- Two actions go on alike, unless the scope that is made next is touched. -/
def RunsAway (like : Likeness touch) (left right : Action α) : Prop :=
  ∀ machine other,
    like.Alike machine other →
    machine.nextScope ≠ touch.owner →
    EndsAlike like.Alike machine (left machine) (right other)

theorem Runs.misses (misses : touch.Misses action) : like.Runs action action :=
  fun _ _ => like.misses misses

theorem Runs.raiseAt (token : Token) (fault : Fault) :
    like.Runs (Action.raiseAt token fault : Action α) (Action.raiseAt token fault) :=
  misses (.throw _)

theorem Runs.bind (runs : like.Runs left right)
    (next : ∀ value, like.Runs (leftNext value) (rightNext value)) :
    like.Runs (left >>= leftNext) (right >>= rightNext) :=
  fun machine other alike => (runs machine other alike).bind fun value _ _ _ _ => next value _ _

theorem Runs.openBody_bind {frame : Frame} {bindings : List (String × Value)}
    {leftNext rightNext : Frame → Action β}
    (next : ∀ inner, like.Open inner.scope → like.Runs (leftNext inner) (rightNext inner)) :
    like.Runs (Evaluator.openBody frame bindings >>= leftNext)
      (Evaluator.openBody frame bindings >>= rightNext) := by
  intro machine other alike
  apply (misses (.openBody frame bindings) machine other alike).bind
  intro inner middle otherMiddle ran _ alikeThen
  refine next inner ?_ middle otherMiddle alikeThen
  rw [Evaluator.openBody_frame ran]
  exact like.fresh alike

theorem RunsAway.detached_bind (detached : Detached action)
    (next : ∀ value, like.RunsAway (leftNext value) (rightNext value)) :
    like.RunsAway (action >>= leftNext) (action >>= rightNext) := by
  intro machine other alike elsewhere
  apply (like.misses (.detached detached) alike).bind
  intro value middle otherMiddle ran _ alikeThen
  have scopes := detached.quiet machine
  rw [ran] at scopes
  have sameNext : middle.nextScope = machine.nextScope :=
    congrArg (fun each : Array Scope => (⟨each.size⟩ : Ref .scope)) scopes
  exact next value middle otherMiddle alikeThen (sameNext ▸ elsewhere)

theorem RunsAway.newScope_bind {leftNext rightNext : Ref .scope → Action β} (scope : Scope)
    (next : ∀ ref, like.Open ref → ref ≠ touch.owner →
      like.Runs (leftNext ref) (rightNext ref)) :
    like.RunsAway (Action.changeGet (·.newScope scope) >>= leftNext)
      (Action.changeGet (·.newScope scope) >>= rightNext) := by
  intro machine other alike elsewhere
  apply (like.misses (.newScope scope) alike).bind
  intro ref middle otherMiddle ran _ alikeThen
  cases ran
  exact next _ (like.fresh alike) elsewhere _ _ alikeThen

theorem Alike.aside (alike : like.Alike machine other) (change : Machine → Machine)
    (detached : Detached fun each => .ok () (change each)) :
    like.Alike (change machine) (change other) := by
  cases like.misses (.detached detached) alike with
  | ok _ alikeThen => exact alikeThen

namespace Runs

variable (runs : like.Runs left right)

include runs

theorem keepingContext (ref : Ref .scope) :
    like.Runs (Action.keepingContext ref left) (Action.keepingContext ref right) := by
  intro machine other alike
  have inner := runs machine other alike
  unfold Action.keepingContext
  generalize left machine = leftEnd at inner ⊢
  generalize right other = rightEnd at inner ⊢
  cases inner with
  | ok grows alikeThen =>
    exact .ok (grows.trans (.setContext _ ref _)) (like.restore ref alike alikeThen)
  | error grows alikeThen =>
    exact .error (grows.trans (.setContext _ ref _)) (like.restore ref alike alikeThen)

theorem inCall (site : CallSite) :
    like.Runs (Action.inCall site left) (Action.inCall site right) := by
  intro machine other alike
  have inner := runs machine other alike
  unfold Action.inCall
  generalize left machine = leftEnd at inner ⊢
  generalize right other = rightEnd at inner ⊢
  cases inner with
  | ok grows alikeThen => exact .ok grows alikeThen
  | @error failure _ _ grows alikeThen => cases failure <;> exact .error grows alikeThen

theorem whileImporting (path : String) :
    like.Runs (Evaluator.whileImporting path left) (Evaluator.whileImporting path right) := by
  intro machine other alike
  let mark (each : Machine) : Machine := { each with importing := path :: each.importing }
  let unmark (each : Machine) : Machine := { each with importing := each.importing.erase path }
  have inner := runs (mark machine) (mark other) (alike.aside mark fun _ _ => rfl)
  unfold Evaluator.whileImporting
  generalize left (mark machine) = leftEnd at inner ⊢
  generalize right (mark other) = rightEnd at inner ⊢
  cases inner with
  | ok grows alikeThen => exact .ok grows (alikeThen.aside unmark fun _ _ => rfl)
  | error grows alikeThen => exact .error grows (alikeThen.aside unmark fun _ _ => rfl)

end Runs

theorem Runs.reporting {left right : Action Unit} (runs : like.Runs left right) :
    like.Runs (Evaluator.reporting left) (Evaluator.reporting right) := by
  intro machine other alike
  have inner := runs machine other alike
  unfold Evaluator.reporting
  generalize left machine = leftEnd at inner ⊢
  generalize right other = rightEnd at inner ⊢
  cases inner with
  | ok grows alikeThen => exact .ok grows alikeThen
  | @error failure _ _ grows alikeThen =>
    cases failure with
    | raised error =>
      exact .ok grows
        (alikeThen.aside (·.modifyWorld (·.writeLine error.message)) fun _ _ => rfl)
    | _ => exact .error grows alikeThen

/-- Evaluators whose statements go on alike in the scopes that are open. -/
structure Covers (like : Likeness touch) (left right : Evaluator) : Prop where
  rounds : right.rounds = left.rounds
  execute : ∀ frame statement, like.Open frame.scope →
    like.Runs (left.execute frame statement) (right.execute frame statement)

/-- A frame looks past the touch: its expressions go on alike, and names are found alike. -/
structure Past (like : Likeness touch) (allowance : Allowance) (frame : Frame)
    (left right : Evaluator) : Prop where
  blinds : touch.Blinds frame.scope
  evaluate : ∀ expression, allowance.hands expression →
    like.Runs (left.evaluate frame expression) (right.evaluate frame expression)
  context : allowance.reads →
    touch.Misses (Action.inspect fun store => (store.scope frame.scope).context)

/-- Going on alike is a habit, whatever the ground is. -/
def habit (like : Likeness touch) (left right : Evaluator) :
    Habit ⟨.empty, 0⟩ (fun _ : Unit => .nothing) where
  Holds _ _ code := like.Runs (code left) (code right)
  Later _ _ := True
  grows _ := .refl .nothing
  pure result _ := .misses (.pure result)
  bind holds next := holds.bind fun result => next () trivial result (Carried.nothing result)

namespace Covers

variable {left right : Evaluator} {frame : Frame} {allowance : Allowance}
  (covers : like.Covers left right)

include covers

theorem executes (isOpen : like.Open frame.scope) (stmts : List Stmt) :
    (like.habit left right).Executes frame stmts :=
  fun _ stmt _ => covers.execute frame stmt isOpen

theorem executeBody (isOpen : like.Open frame.scope) (body : Block) :
    like.Runs (left.executeBody frame body) (right.executeBody frame body) := by
  have executed : (like.habit left right).Holds () _ (·.executeBody frame body) :=
    (like.habit left right).executeBody (covers.executes isOpen _)
  exact executed

theorem executeBlock (frame : Frame) (body : Block) :
    like.Runs (left.executeBlock frame body) (right.executeBlock frame body) := by
  rw [Evaluator.executeBlock_eq, Evaluator.executeBlock_eq]
  exact .openBody_bind fun _ isOpen => covers.executeBody isOpen body

theorem declareGroup (frame : Frame) (name : Token) (body : Block) (isPublic : Bool) :
    like.Runs (left.declareGroup frame name body isPublic)
      (right.declareGroup frame name body isPublic) := by
  unfold Evaluator.declareGroup
  rw [← Evaluator.openBody_nil]
  apply Runs.openBody_bind
  intro inner isOpen
  apply (covers.executeBody isOpen body).bind
  intro completion
  cases completion with
  | broke keyword outcome =>
    exact (Runs.raiseAt keyword _).bind fun _ => .misses (.defineGroup _ _ _)
  | normal outcome => exact .misses (.defineGroup _ _ _)

/-- Going on alike is a discipline of frames that look past the touch. -/
def discipline (past : like.Past allowance frame left right) :
    Discipline ⟨.empty, 0⟩ (fun _ : Unit => .nothing) allowance frame where
  toHabit := like.habit left right
  keepingContext holds := holds.keepingContext frame.scope
  rounds holds := by
    simp only [habit, covers.rounds]
    exact holds left.rounds
  evaluate := past.evaluate _
  executeBlock _ := covers.executeBlock frame _
  runEach _ _ := .openBody_bind fun _ isOpen => covers.executeBody isOpen _
  declareGroup isPublic _ := covers.declareGroup frame _ _ isPublic
  raiseAt token _ := .raiseAt token _
  exhausted := .misses (.throw _)
  strays _ := .misses (.throw _)
  viewItems _ _ _ _ := .misses (.detached (.inspect fun _ _ => rfl))
  viewObject _ _ _ _ _ := .misses (.detached (.inspect fun _ _ => rfl))
  text value := .misses (.text value)
  group ref := .misses (.group ref)
  hasGroup scope name := .misses (.hasGroup scope name)
  context reads := .misses (past.context reads)
  readVariable name := .misses (.readVariable past.blinds name)
  overwrite name _ := .misses (.overwrite past.blinds name _)
  functionNamed name := .misses (.resolveCallee past.blinds left name)
  groupNamed name := .misses (.groupNamed past.blinds name)
  member kind group name _ :=
    .misses (.lookUp fun fits => past.blinds.member fits kind group.scope name)
  setContext _ _ := fun _ _ alike =>
    .ok (.setContext _ frame.scope _) (like.setContext frame.scope _ alike)
  traceCondition word condition := .misses (.traceCondition word condition)
  declareVariable isPublic _ _ := .misses (.declareVariable _ _ isPublic)
  declareFunction isPublic _ := .misses (.declareFunction _ _ _ isPublic)
  changeItems _ _ _ _ _ := .misses (.detached (.change fun _ _ => rfl))
  newArray _ := .misses (.detached (.bind (.changeGet fun _ _ => rfl) fun _ => .pure _))
  newObject _ := .misses (.newObject _)

theorem calling (past : like.Past allowance frame left right) :
    (covers.discipline past).Calling where
  inCall site holds := .inCall holds site
  trace name values := .misses (.traceCall name values)
  callFunction {_ fn values} _ _ := by
    cases fn with
    | native native => exact .misses (.detached (native.call_tame _).detached)
    | user fn =>
      show like.Runs (left.callUser fn values) (right.callUser fn values)
      rw [Evaluator.callUser_eq, Evaluator.callUser_eq]
      apply Runs.openBody_bind
      intro inner isOpen
      exact (covers.executeBody isOpen fn.body).bind fun _ => .misses (.pure _)

theorem interpret (isOpen : like.Open frame.scope) (stmts : List Stmt) :
    like.Runs (left.interpret frame stmts) (right.interpret frame stmts) := by
  apply (Runs.misses (.trace 1 fun _ _ => rfl)).bind
  intro _
  have executed : (like.habit left right).Holds () _ (·.executeProgram frame stmts) :=
    (like.habit left right).executeProgram () (covers.executes isOpen _) fun _ keyword =>
      .raiseAt keyword _
  apply (Runs.reporting executed).bind
  intro success
  exact (Runs.misses (.trace 1 fun _ _ => rfl)).bind fun _ => .misses (.pure _)

theorem runSource {scope : Ref .scope} (isOpen : like.Open scope) (text : String) :
    like.Runs (left.runSource scope text) (right.runSource scope text) := by
  have numbered : like.Runs Evaluator.newSource Evaluator.newSource :=
    .misses (.detached fun _ _ => rfl)
  apply numbered.bind
  intro source
  apply (Runs.misses (.detached (.changeWorld _))).bind
  intro _
  split
  · exact (covers.interpret isOpen _).bind fun _ => .misses (.pure _)
  · exact .misses (.pure _)

/--
The names of a file are taken from the scope that is made for it, private ones
among them, and become foreign ones.
-/
theorem useFile (frame : Frame) (place : Token) (name : String) :
    like.RunsAway (left.useFile frame place name) (right.useFile frame place name) := by
  apply RunsAway.detached_bind (Evaluator.findFile_detached place name)
  intro found
  apply RunsAway.newScope_bind
  intro imported isOpen different
  apply ((covers.runSource isOpen found.2).whileImporting found.1).bind
  intro result
  have adopts : touch.Misses (Evaluator.adoptLoaded frame place name (imported, result)) :=
    .adoptLoaded different place name
  exact .misses adopts

theorem use (frame : Frame) (path : Token) :
    like.RunsAway (left.use frame path) (right.use frame path) := by
  apply RunsAway.detached_bind (.look fun _ _ => rfl)
  intro natives
  split
  · apply RunsAway.detached_bind (.trace 1 fun _ _ => rfl)
    exact fun _ machine other alike _ => like.misses (.mergeScope path _) alike
  · exact covers.useFile frame path _

end Covers

end Likeness

end ArrowScript

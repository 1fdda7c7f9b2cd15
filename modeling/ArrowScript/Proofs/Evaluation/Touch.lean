import ArrowScript.Proofs.Scope.Barring

namespace ArrowScript

/-!
# Touching a scope

A touch changes something in a scope that hardly any code looks at.  An action
misses the touch if it comes to the same whether the scope is touched before or
after it.  Whatever code does by itself misses the touch, as long as it finds
under names what it would find without the touch.
-/

open ArrowScript.Action

/-- A change of a scope that definitions do not notice, and the stores in which it may be made. -/
structure Touch where
  owner : Ref .scope
  change : Scope → Scope
  suits : Scope → Prop
  Fits : Store → Prop
  subtle : Scope.Subtle suits change
  hasScope : ∀ {store}, Fits store → store.HasScope owner
  suited : ∀ {store}, Fits store → suits (store.scope owner)
  grown : ∀ {before after}, Fits before → before.Grows after → Fits after

namespace Touch

/-- A store after the change of a scope. -/
def store (touch : Touch) (store : Store) : Store :=
  store.modifyScope touch.owner touch.change

/-- A machine after the change of a scope. -/
def machine (touch : Touch) (machine : Machine) : Machine :=
  machine.modifyStore touch.store

/-- From a machine on, an action comes to the same if the scope is touched before or after it. -/
structure MissesAt {α : Type} (touch : Touch) (action : Action α) (machine : Machine) : Prop where
  grows : machine.store.Grows (after (action machine)).store
  commutes : touch.Fits machine.store →
    action (touch.machine machine) = mapAfter touch.machine (action machine)

/-- An action comes to the same if the scope is touched before or after it. -/
def Misses (touch : Touch) (action : Action α) : Prop :=
  ∀ machine, touch.MissesAt action machine

variable {touch : Touch} {store : Store} {ref : Ref .scope}

theorem scope_self (fits : touch.Fits store) :
    (touch.store store).scope touch.owner = touch.change (store.scope touch.owner) :=
  Store.scope_modifyScope_self (touch.hasScope fits) _

theorem scope_other (different : ref ≠ touch.owner) :
    (touch.store store).scope ref = store.scope ref :=
  Store.scope_modifyScope_other different _

theorem size : (touch.store store).scopes.size = store.scopes.size :=
  store.size_modifyScope touch.owner _

theorem has (fits : touch.Fits store) (ref : Ref .scope) (kind : NameKind) (name : String) :
    (((touch.store store).scope ref).names kind).has name =
      ((store.scope ref).names kind).has name := by
  by_cases same : ref = touch.owner
  · rw [same, scope_self fits]
    exact touch.subtle.has _ kind name
  · rw [scope_other same]

theorem define (fits : touch.Fits store) (ref : Ref .scope) (kind : NameKind) (name : String)
    (entry : Entry kind.Content) : ((touch.store store).scope ref).define kind name entry =
      ((store.scope ref).define kind name entry).map fun scope =>
        if ref = touch.owner then touch.change scope else scope := by
  by_cases same : ref = touch.owner
  · subst same
    simp only [↓reduceIte, scope_self fits, touch.subtle.define (touch.suited fits)]
  · rw [scope_other same]
    cases (store.scope ref).define kind name entry <;> simp [Except.map, same]

theorem merge (fits : touch.Fits store) (ref : Ref .scope) (library : Scope) :
    (touch.store store).merge ref library =
      (touch.store (store.merge ref library).1, (store.merge ref library).2) := by
  have merged : ((touch.store store).scope ref).mergeFrom library =
      ((store.scope ref).mergeFrom library).map fun scope =>
        if ref = touch.owner then touch.change scope else scope := by
    by_cases same : ref = touch.owner
    · subst same
      simp only [↓reduceIte, scope_self fits]
      exact touch.subtle.mergeFrom (touch.suited fits) library
    · rw [scope_other same]
      simp only [Scope.Merged.map, same, ↓reduceIte]
  simp only [Store.merge, merged, Scope.Merged.map]
  exact congrArg (·, _) (Store.setScope_modifyScope ref touch.owner touch.change _)

variable {α β : Type} {action : Action α} {next : α → Action β} {machine : Machine}
  {place : Option Position}

theorem MissesAt.bind (misses : touch.MissesAt action machine) (missesThen :
      ∀ value middle, action machine = .ok value middle → touch.MissesAt (next value) middle) :
    touch.MissesAt (action >>= next) machine := by
  obtain ⟨grows, commutes⟩ := misses
  cases ran : action machine with
  | ok value middle =>
    have later := missesThen value middle ran
    rw [ran] at grows commutes
    refine ⟨?_, fun fits => ?_⟩
    · rw [bind_of_ok ran]
      exact grows.trans later.grows
    · rw [bind_of_ok ran, bind_of_ok (commutes fits)]
      exact later.commutes (touch.grown fits grows)
  | error failure middle =>
    rw [ran] at grows commutes
    refine ⟨?_, fun fits => ?_⟩
    · rw [bind_of_error ran]
      exact grows
    · rw [bind_of_error ran, bind_of_error (commutes fits)]
      rfl

theorem MissesAt.change {update : Store → Store}
    (grows : machine.store.Grows (update machine.store)) (commutes : touch.Fits machine.store →
      update (touch.store machine.store) = touch.store (update machine.store)) :
    touch.MissesAt (Action.change update) machine := by
  refine ⟨grows, fun fits => ?_⟩
  simp only [Action.change, Touch.machine, Machine.modifyStore, commutes fits, mapAfter]

namespace Misses

theorem bind (misses : touch.Misses action) (missesThen : ∀ value, touch.Misses (next value)) :
    touch.Misses (action >>= next) :=
  fun machine => (misses machine).bind fun value middle _ => missesThen value middle

theorem detached (isDetached : Detached action) : touch.Misses action := by
  intro machine
  have sameScopes := isDetached.quiet machine
  refine ⟨.of_scopes_eq sameScopes, fun _ => ?_⟩
  refine (isDetached machine (touch.machine machine).store.scopes).trans ?_
  cases ran : action machine <;>
  · rw [ran] at sameScopes
    simp only [after] at sameScopes
    simp only [mapAfter, Touch.machine, Touch.store, Machine.withScopes, Machine.modifyStore,
      Store.withScopes, Store.modifyScope, sameScopes]

theorem pure (value : α) : touch.Misses (Pure.pure value) :=
  detached (.pure value)

theorem throw (failure : Failure) : touch.Misses (MonadExcept.throw failure : Action α) :=
  detached (.throw failure)

theorem trace {line : Store → String} (level : Nat)
    (same : ∀ store scopes, line (store.withScopes scopes) = line store) :
    touch.Misses (Action.trace level line) :=
  detached (.trace level same)

theorem inspect {view : Store → α}
    (same : ∀ {store}, touch.Fits store → view (touch.store store) = view store) :
    touch.Misses (Action.inspect view) := by
  refine fun machine => ⟨.refl machine.store, fun fits => ?_⟩
  simp only [Action.inspect, Touch.machine, Machine.modifyStore, same fits, mapAfter]

theorem lookUp {view : Store → Except ScopeFault α}
    (same : ∀ {store}, touch.Fits store → view (touch.store store) = view store) :
    touch.Misses (Action.lookUp place view) := by
  refine fun machine => ⟨?_, fun fits => ?_⟩
  · unfold Action.lookUp
    split <;> exact .refl machine.store
  · simp only [Action.lookUp, Touch.machine, Machine.modifyStore, same fits]
    split <;> rfl

theorem changeGet {update : Store → α × Store}
    (grows : ∀ store : Store, store.Grows (update store).2)
    (commutes : ∀ {store}, touch.Fits store →
      update (touch.store store) = ((update store).1, touch.store (update store).2)) :
    touch.Misses (Action.changeGet update) := by
  refine fun machine => ⟨grows machine.store, fun fits => ?_⟩
  simp only [Action.changeGet, Touch.machine, Machine.modifyStore, commutes fits, mapAfter]

theorem newScope (scope : Scope) : touch.Misses (Action.changeGet (·.newScope scope)) :=
  changeGet (fun store => .newScope store scope) fun fits =>
    Store.newScope_modifyScope (touch.hasScope fits) touch.change scope

theorem define (ref : Ref .scope) (kind : NameKind) (name : String) (entry : Entry kind.Content) :
    touch.Misses (Action.define place ref fun scope => scope.define kind name entry) := by
  intro machine
  cases defines : (machine.store.scope ref).define kind name entry with
  | ok defined =>
    refine ⟨?_, fun fits => ?_⟩
    · rw [define_of_ok defines]
      exact .setScope (Scope.retains_of_define defines)
    · have definesTouched := touch.define fits ref kind name entry
      rw [defines] at definesTouched
      refine (define_of_ok definesTouched).trans ?_
      rw [define_of_ok defines]
      exact congrArg (fun store => EStateM.Result.ok () { machine with store := store })
        (Store.setScope_modifyScope ref touch.owner touch.change defined)
  | error fault =>
    refine ⟨?_, fun fits => ?_⟩
    · rw [define_of_error defines]
      exact .refl machine.store
    · have definesTouched := touch.define fits ref kind name entry
      rw [defines] at definesTouched
      refine (define_of_error definesTouched).trans ?_
      rw [define_of_error defines]
      rfl

end Misses

/-- What a reader finds under names is the same with the touch, and not written where it is. -/
structure Blinds (touch : Touch) (reader : Ref .scope) : Prop where
  visible : ∀ {store}, touch.Fits store → ∀ kind name,
    (touch.store store).visible kind (Scope.names kind) reader name =
      store.visible kind (Scope.names kind) reader name
  member : ∀ {store}, touch.Fits store → ∀ kind group name,
    (touch.store store).member kind (Scope.names kind) group reader name =
      store.member kind (Scope.names kind) group reader name
  writes : ∀ {store owner name}, touch.Fits store → store.ownerOf reader name = .ok owner →
    ∀ value,
    (touch.store store).setVariable owner name value =
      touch.store (store.setVariable owner name value)

variable {frame : Frame}

theorem Misses.innerFrame (frame : Frame) : touch.Misses (Evaluator.innerFrame frame) :=
  (Misses.newScope _).bind fun _ => .pure _

theorem Misses.bindParameters (scope : Ref .scope) (params : List (String × Value)) :
    touch.Misses (Evaluator.bindParameters scope params) := by
  induction params with
  | nil => exact .pure _
  | cons param rest ih =>
    exact (Misses.define scope .variableName _ _).bind fun _ => ih

theorem Misses.openBody (frame : Frame) (bindings : List (String × Value)) :
    touch.Misses (Evaluator.openBody frame bindings) :=
  (Misses.innerFrame frame).bind fun inner =>
    (Misses.bindParameters inner.scope bindings).bind fun _ => .pure _

theorem Misses.declareVariable (name : Token) (value : Value) (isPublic : Bool) :
    touch.Misses (Evaluator.declareVariable frame name value isPublic) := by
  apply (Misses.define frame.scope .variableName _ _).bind
  intro _
  apply Misses.trace
  intro store scopes
  rw [Store.text_withScopes]

theorem Misses.declareFunction (name : Token) (params : List Token) (body : Block)
    (isPublic : Bool) :
    touch.Misses (Evaluator.declareFunction frame name params body isPublic) :=
  (Misses.define frame.scope .functionName _ _).bind fun _ => .trace 2 fun _ _ => rfl

theorem Misses.defineGroup (name : Token) (scope : Ref .scope) (isPublic : Bool) :
    touch.Misses (Evaluator.defineGroup frame name scope isPublic) := by
  apply (Misses.detached (.changeGet fun _ _ => rfl)).bind
  intro group
  exact (Misses.define frame.scope .groupName _ _).bind fun _ => .trace 2 fun _ _ => rfl

theorem Misses.mergeScope (token : Token) (library : Scope) :
    touch.Misses (Evaluator.mergeScope frame token library) := by
  have merges :
      touch.Misses (Action.changeGet fun store => (store.merge frame.scope library).swap) := by
    apply Misses.changeGet
    · intro store
      obtain ⟨additions, shape, -⟩ := Scope.mergeFrom_eq_add (store.scope frame.scope) library
      apply Store.Grows.setScope
      rw [shape]
      exact .add _ additions
    · intro store fits
      rw [touch.merge fits]
      rfl
  apply merges.bind
  intro fault
  cases fault with
  | none => exact .pure _
  | some fault => exact .throw _

/-- The names of a file are taken from a scope that is not touched. -/
theorem Misses.adoptLoaded {loaded : Ref .scope × RunResult} (different : loaded.1 ≠ touch.owner)
    (token : Token) (name : String) :
    touch.Misses (Evaluator.adoptLoaded frame token name loaded) := by
  unfold Evaluator.adoptLoaded
  split
  · exact .throw _
  exact (Misses.inspect fun _ => scope_other different).bind fun library =>
    .mergeScope token library

theorem Misses.traceCondition (word : String) (condition : Value) :
    touch.Misses (Evaluator.traceCondition word condition) := by
  apply Misses.trace
  intro store scopes
  rw [Store.text_withScopes]

theorem Misses.traceCall (name : Token) (values : List Value) :
    touch.Misses (Action.trace 3 fun store => "call " ++ name.lexeme ++ "(" ++
      Store.commaSeparated (values.map (store.text true)) ++ ")") := by
  apply Misses.trace
  intro store scopes
  rw [funext (store.text_withScopes scopes true)]

theorem Misses.text (value : Value) :
    touch.Misses (Action.inspect fun store => store.text false value) :=
  .detached (.inspect fun store scopes => store.text_withScopes scopes false value)

theorem Misses.hasGroup (scope : Ref .scope) (name : String) :
    touch.Misses (Action.inspect fun store => (store.scope scope).groups.has name) :=
  .inspect fun fits => touch.has fits scope .groupName name

theorem Misses.group (ref : Ref .group) : touch.Misses (Action.inspect (·.group ref)) := by
  apply Misses.inspect
  intro store _
  simp only [Store.group, size]
  rfl

theorem Misses.newObject (object : Object) : touch.Misses (Evaluator.newObject object) :=
  (Misses.detached (.changeGet fun _ _ => rfl)).bind fun _ => .pure _

section

variable (blinds : touch.Blinds frame.scope)

include blinds

theorem Misses.readVariable (name : Token) : touch.Misses (Evaluator.readVariable frame name) := by
  apply Misses.lookUp
  intro store fits
  have same : _ = store.visible .variableName Scope.bindings frame.scope name.lexeme :=
    blinds.visible fits .variableName name.lexeme
  unfold Store.variableNamed
  rw [← same]
  rfl

theorem Misses.groupNamed (name : Token) : touch.Misses
      (Action.lookUp (some name.start) fun store => store.groupNamed frame.scope name.lexeme) := by
  apply Misses.lookUp
  intro store fits
  have same : _ = store.visible .groupName Scope.groups frame.scope name.lexeme :=
    blinds.visible fits .groupName name.lexeme
  unfold Store.groupNamed
  rw [← same]
  rfl

theorem Misses.resolveCallee (evaluator : Evaluator) (name : Token) :
    touch.Misses (evaluator.resolveCallee frame (.functionName name)) := by
  apply (Misses.detached (.look fun _ _ => rfl)).bind
  intro registry
  refine (Misses.lookUp ?_).bind fun _ => .pure _
  intro store fits
  have same : _ = store.visible .functionName Scope.functions frame.scope name.textValue :=
    blinds.visible fits .functionName name.textValue
  unfold Store.functionNamed
  rw [← same]
  rfl

theorem Misses.overwrite (name : Token) (value : Value) :
    touch.Misses (Evaluator.overwrite frame name value) := by
  intro machine
  have looks : touch.Misses
      (Action.lookUp (some name.start) fun store => store.ownerOf frame.scope name.lexeme) := by
    apply Misses.lookUp
    intro store fits
    have same : _ = store.visible .variableName Scope.bindings frame.scope name.lexeme :=
      blinds.visible fits .variableName name.lexeme
    unfold Store.ownerOf
    rw [← same]
    rfl
  apply (looks machine).bind
  intro owner middle found
  unfold Action.lookUp at found
  split at found
  · rename_i isOwner
    cases found
    have writes : touch.MissesAt (Action.change (·.setVariable owner name.lexeme value)) machine :=
      .change (.setVariable machine.store owner name.lexeme value) fun fits =>
        blinds.writes fits isOwner value
    exact writes.bind fun _ later _ => Misses.pure value later
  · cases found

end

end Touch

end ArrowScript

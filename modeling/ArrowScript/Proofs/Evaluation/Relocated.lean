import ArrowScript.Proofs.Evaluation.Discipline
import ArrowScript.Proofs.Native.Relocated

namespace ArrowScript

/-!
# Evaluation on top of another store

What a piece of code does depends on what its references lead to and on which of
them are the same, never on where in the store they lie.  On top of any ground
code therefore does what it does alone, as long as what is nested inside it does:
this is a discipline.
-/

variable {ground : Ground}

/-- On the ground an evaluator does what another one does alone. -/
structure Evaluator.Follows (ground : Ground) (left right : Evaluator) : Prop where
  rounds : left.rounds = right.rounds
  evaluate : ∀ frame expression, Action.Follows ground (·.on ground)
    (left.evaluate (frame.on ground) expression) (right.evaluate frame expression)
  execute : ∀ frame statement, Action.Follows ground (·.on ground)
    (left.execute (frame.on ground) statement) (right.execute frame statement)

namespace Evaluator

variable {left right : Evaluator} {frame : Frame}

variable (name : Token)

theorem readVariable_follows : Action.Follows ground (·.on ground)
      (readVariable (frame.on ground) name) (readVariable frame name) :=
  .lookUp fun store =>
    store.variableNamed_on frame.scope (some (frame.site name)) name.lexeme

theorem traceCondition_follows (word : String) (condition : Value) : Action.Follows ground id
      (traceCondition word (condition.on ground)) (traceCondition word condition) := by
  apply Action.Follows.trace
  intro store
  rw [Store.text_on, Value.isTrue_on]

theorem innerFrame_follows (frame : Frame) :
    Action.Follows ground (·.on ground) (innerFrame (frame.on ground)) (innerFrame frame) := by
  have opened : Action.Follows ground (·.on ground)
      (Action.changeGet (·.newScope (.child (frame.on ground).scope)))
      (Action.changeGet (·.newScope (.child frame.scope))) :=
    .changeGet fun store => store.newScope_on (.child frame.scope)
  exact opened.bind fun _ => .pure rfl

theorem defineVariable_follows (place : Option Position) (ref : Ref .scope) (name : String)
    (entry : Entry Value) :
    Action.Follows ground id (Action.define place (ref.on ground) fun scope =>
        scope.defineVariable name (entry.on ground (·.on ground)))
      (Action.define place ref fun scope => scope.defineVariable name entry) :=
  .define ref fun scope => scope.defineVariable_on name entry

theorem declareVariable_follows (value : Value) (isPublic : Bool) :
    Action.Follows ground id (declareVariable (frame.on ground) name (value.on ground) isPublic)
      (declareVariable frame name value isPublic) := by
  apply (defineVariable_follows (some name.start) frame.scope name.lexeme
    { value := value, isPublic := isPublic, declared := some (frame.site name) }).andThen
  intro _
  apply Action.Follows.trace
  intro store
  rw [Store.text_on, Value.typeName_on]

theorem member_follows (kind : NameKind) (group reader : Ref .scope) (name : String)
    (place : Position) :
    Action.Follows ground (Carried.on · ground) (Action.lookUp (some place) fun store =>
        store.member kind (Scope.names kind) (group.on ground) (reader.on ground) name)
      (Action.lookUp (some place) fun store =>
        store.member kind (Scope.names kind) group reader name) := by
  apply Action.Follows.lookUp
  intro store
  cases kind with
  | variableName => exact store.member_on (fun _ => rfl) .variableName group reader name
  | functionName => exact store.member_on (fun _ => rfl) .functionName group reader name
  | groupName => exact store.member_on (fun _ => rfl) .groupName group reader name

theorem bindParameters_follows (ref : Ref .scope) (bindings : List (String × Value)) :
    Action.Follows ground id
      (bindParameters (ref.on ground)
        (bindings.map fun binding => (binding.1, binding.2.on ground)))
      (bindParameters ref bindings) := by
  induction bindings with
  | nil => exact .pure rfl
  | cons binding rest ih =>
    obtain ⟨name, value⟩ := binding
    exact (defineVariable_follows none ref name { value := value, isPublic := false }).andThen
      fun _ => ih

theorem setVariable_follows (owner : Ref .scope) (name : String) (value : Value) :
    Action.Follows ground id
      (Action.change (·.setVariable (owner.on ground) name (value.on ground)))
      (Action.change (·.setVariable owner name value)) :=
  .change fun store => store.setVariable_on owner name value

theorem newSource_follows : Action.Follows ground (ground.sources + ·) newSource newSource :=
  fun _ => rfl

theorem findFile_follows (place : Token) (name : String) :
    Action.Follows ground id (findFile place name) (findFile place name) := by
  have resolved : Action.Follows ground id
      (fun machine => .ok (Path.absolute? machine.world.directory name) machine)
      (fun machine => .ok (Path.absolute? machine.world.directory name) machine) :=
    .look fun _ => rfl
  have named : Action.Follows ground id (Action.absolutePath name) (Action.absolutePath name) := by
    apply resolved.andThen
    intro path
    cases path with
    | none => exact fun _ => rfl
    | some path => exact .pure rfl
  apply named.andThen
  intro path
  apply (Native.inspectFiles_follows _).andThen
  intro isFile
  simp only
  split
  · exact .raiseAt_bind
  have sought : Action.Follows ground id
      (fun machine => .ok (machine.importing.contains path) machine)
      (fun machine => .ok (machine.importing.contains path) machine) :=
    .look fun _ => rfl
  apply sought.andThen
  intro isImporting
  split
  · exact .raiseAt_bind
  apply (Action.Follows.trace 1 fun _ => rfl).andThen
  intro _
  apply (Native.inspectFiles_follows _).andThen
  intro content
  split
  · exact .raiseAt _ _
  · exact .pure rfl

theorem newRoot_follows : Action.Follows ground (·.on ground)
      (Action.changeGet (·.newScope .root)) (Action.changeGet (·.newScope .root)) :=
  .changeGet fun store => store.newScope_on .root

theorem mergeScope_follows (place : Token) (library : Scope) : Action.Follows ground id
      (mergeScope (frame.on ground) place (library.on ground))
        (mergeScope frame place library) := by
  have merged : Action.Follows ground id
      (Action.changeGet fun store => (store.merge (frame.on ground).scope (library.on ground)).swap)
      (Action.changeGet fun store => (store.merge frame.scope library).swap) := by
    apply Action.Follows.changeGet
    intro store
    exact congrArg Prod.swap (store.merge_on frame.scope library)
  apply merged.andThen
  intro fault
  cases fault with
  | none => exact .pure rfl
  | some fault => exact .raiseAt _ _

theorem declareFunction_follows (params : List Token) (body : Block) (isPublic : Bool) :
    Action.Follows ground id (declareFunction (frame.on ground) name params body isPublic)
      (declareFunction frame name params body isPublic) := by
  apply Action.Follows.andThen
  · apply Action.Follows.define frame.scope
    intro scope
    let function : UserFunction :=
      ⟨name.textValue, params.map Token.lexeme, body, frame.scope, frame.source⟩
    exact scope.defineFunction_on name.textValue { value := .user function, isPublic := isPublic }
  · exact fun _ => .trace 2 fun _ => rfl

theorem functionNamed_follows : Action.Follows ground (Carried.on · ground)
      (left.resolveCallee (frame.on ground) (.functionName name))
      (right.resolveCallee frame (.functionName name)) := by
  have registered : Action.Follows ground (·.on ground)
      (fun machine => .ok machine.registry machine) (fun machine => .ok machine.registry machine) :=
    .look fun _ => rfl
  apply registered.bind
  intro registry
  have found : Action.Follows ground (·.on ground) (Action.lookUp (some name.start) fun store =>
        store.functionNamed (registry.on ground) (frame.scope.on ground) name.textValue)
      (Action.lookUp (some name.start) fun store =>
        store.functionNamed registry frame.scope name.textValue) :=
    .lookUp fun store => store.functionNamed_on registry frame.scope name.textValue
  exact found.bind fun _ => .pure rfl

theorem overwrite_follows (value : Value) : Action.Follows ground (·.on ground)
      (overwrite (frame.on ground) name (value.on ground)) (overwrite frame name value) := by
  have owned : Action.Follows ground (·.on ground) (Action.lookUp (some name.start) fun store =>
        store.ownerOf (frame.scope.on ground) name.lexeme)
      (Action.lookUp (some name.start) fun store => store.ownerOf frame.scope name.lexeme) :=
    .lookUp fun store => store.ownerOf_on frame.scope name.lexeme
  apply owned.bind
  intro owner
  exact (setVariable_follows owner name.lexeme value).andThen fun _ => .pure rfl

theorem openBody_follows (frame : Frame) (bindings : List (String × Value)) :
    Action.Follows ground (·.on ground)
      (openBody (frame.on ground) (bindings.map fun binding => (binding.1, binding.2.on ground)))
      (openBody frame bindings) := by
  apply (innerFrame_follows frame).bind
  intro inner
  exact (bindParameters_follows inner.scope bindings).andThen fun _ => .pure rfl

theorem defineGroup_follows (scope : Ref .scope) (isPublic : Bool) :
    Action.Follows ground id (defineGroup (frame.on ground) name (scope.on ground) isPublic)
      (defineGroup frame name scope isPublic) := by
  have allocated : Action.Follows ground (·.on ground)
      (Action.changeGet (·.newGroup ⟨name.lexeme, scope.on ground⟩))
      (Action.changeGet (·.newGroup ⟨name.lexeme, scope⟩)) :=
    .changeGet fun store => store.newGroup_on ⟨name.lexeme, scope⟩
  apply allocated.bind
  intro group
  apply Action.Follows.andThen
  · apply Action.Follows.define frame.scope
    exact fun scope => scope.defineGroup_on name.lexeme { value := group, isPublic := isPublic }
  · exact fun _ => .trace 2 fun _ => rfl

end Evaluator

def Evaluator.followsHabit (ground : Ground) (left right : Evaluator) :
    Habit ground (fun _ : Unit => .nothing) where
  Holds _ code alone := Action.Follows ground (Carried.on · ground) (code left) (alone right)
  Later _ _ := True
  grows _ := .refl .nothing
  pure _ _ := .pure rfl
  bind holds next := holds.bind fun result => next () trivial result (Carried.nothing result)

namespace Evaluator

variable {left right : Evaluator} {frame : Frame}

section

variable (follows : left.Follows ground right)

include follows

theorem Follows.executes (stmts : List Stmt) (frame : Frame) :
    (followsHabit ground left right).Executes frame stmts :=
  fun _ stmt _ => follows.execute frame stmt

/-- To go on as alone is a discipline of every frame. -/
def Follows.discipline (frame : Frame) :
    Discipline ground (fun _ : Unit => .nothing) .anything frame where
  toHabit := followsHabit ground left right
  keepingContext holds := holds.keepingContext frame.scope
  rounds holds := by
    simp only [followsHabit, follows.rounds]
    exact holds right.rounds
  evaluate _ := follows.evaluate frame _
  executeBlock _ := Habit.executeBlock _ (follows.executes _) (innerFrame_follows frame)
  runEach _ _ := Habit.runEach _ (follows.executes _) (openBody_follows frame [(_, _)])
  declareGroup _ _ :=
    Habit.declareGroup _ (follows.executes _) (innerFrame_follows frame)
      (fun _ keyword => .raiseAt keyword _) fun _ _ => defineGroup_follows _ _ _
  raiseAt token _ := .raiseAt token _
  exhausted _ := rfl
  strays _ _ := rfl
  viewItems ref view same _ :=
    .inspect fun store => by
      rw [Store.items_on]
      exact same _
  viewObject ref _ _ same _ :=
    .inspect fun store => by
      rw [Store.object_on]
      exact same _
  text value := .text false value
  group ref := .inspect fun store => store.group_on ref
  hasGroup scope name :=
    .inspect fun store => by
      rw [Store.scope_on]
      exact Namespace.has_on _ name
  context _ :=
    .inspect fun store => by
      rw [Store.scope_on]
      rfl
  readVariable name := readVariable_follows name
  overwrite name _ := overwrite_follows name _
  functionNamed name := functionNamed_follows name
  groupNamed name := .lookUp fun store => store.groupNamed_on _ name.lexeme
  member kind group name place := member_follows kind group.scope _ name place
  setContext _ _ := .change fun store => store.setContext_on frame.scope _
  traceCondition := traceCondition_follows
  declareVariable isPublic _ _ := declareVariable_follows _ _ isPublic
  declareFunction isPublic _ := declareFunction_follows _ _ _ isPublic
  changeItems ref _ _ same _ := .change fun store => store.modifyArray_on ref same
  newArray _ := Native.newArray_follows _
  newObject {_ object} _ := by
    have allocated :
        Action.Follows ground (·.on ground) (Action.changeGet (·.newObject (object.on ground)))
          (Action.changeGet (·.newObject object)) :=
      .changeGet fun store => store.newObject_on object
    exact allocated.bind fun _ => .pure rfl

theorem Follows.calling (frame : Frame) : (follows.discipline frame).Calling where
  inCall site holds := .inCall site holds
  trace name values :=
    .trace 3 fun store => by
      simp only [List.map_map, Function.comp_def, Store.text_on]
  callFunction {_ fn values} _ _ := by
    cases fn with
    | native native => exact Native.call_follows native values
    | user fn =>
      apply Habit.callUser _ () (follows.executes _)
      simp only [List.zip_map_right]
      exact openBody_follows _ _

theorem Follows.special (frame : Frame) : (follows.discipline frame).Special where
  assignKey :=
    (follows.discipline frame).assignKey fun _ ref key value _ _ =>
      .change fun store => store.setKey_on ref key value
  assignMember :=
    (follows.discipline frame).assignMember fun _ owner name value _ =>
      setVariable_follows owner name value

theorem evaluateExpression_follows (frame : Frame) (expr : Expr) :
    Action.Follows ground (·.on ground) (left.evaluateExpression (frame.on ground) expr)
      (right.evaluateExpression frame expr) := by
  have fits := Allowance.anything_fits expr
  apply (follows.discipline frame).evaluateExpression (follows.special frame) () fits
  rintro callee args rfl
  exact (follows.discipline frame).evaluateCall (follows.calling frame) () fits

theorem interpret_follows (frame : Frame) (stmts : List Stmt) : Action.Follows ground id
      (left.interpret (frame.on ground) stmts) (right.interpret frame stmts) := by
  apply (Action.Follows.trace 1 fun _ => rfl).andThen
  intro _
  have executed : (followsHabit ground left right).Holds () _ (·.executeProgram frame stmts) :=
    Habit.executeProgram _ () (follows.executes _ _) fun _ keyword =>
      .raiseAt keyword _
  apply (Action.Follows.reporting executed).andThen
  intro success
  apply (Action.Follows.trace 1 fun _ => rfl).andThen
  exact fun _ => .pure rfl

theorem runSource_follows (scope : Ref .scope) (text : String) : Action.Follows ground id
      (left.runSource (scope.on ground) text) (right.runSource scope text) := by
  apply newSource_follows.bind
  intro source
  apply (Action.Follows.changeWorld _).andThen
  intro _
  split
  · apply (interpret_follows follows ⟨scope, source⟩ _).andThen
    exact fun _ => .pure rfl
  · exact .pure rfl

theorem useFile_follows (place : Token) (name : String) :
    Action.Follows ground id (left.useFile (frame.on ground) place name)
      (right.useFile frame place name) := by
  apply (findFile_follows place name).andThen
  intro file
  apply newRoot_follows.bind
  intro imported
  apply ((runSource_follows follows imported file.2).whileImporting file.1).andThen
  intro result
  split
  · exact .raiseAt_bind
  have looked : Action.Follows ground (·.on ground)
      (Action.inspect (·.scope (imported.on ground))) (Action.inspect (·.scope imported)) :=
    .inspect fun store => store.scope_on imported
  exact looked.bind fun library => mergeScope_follows place library

theorem use_follows (path : Token) :
    Action.Follows ground id (left.use (frame.on ground) path) (right.use frame path) := by
  have looked : Action.Follows ground (·.map fun natives => natives.map (·.on ground))
      (fun machine => .ok (machine.registry.group? path.textValue) machine)
      (fun machine => .ok (machine.registry.group? path.textValue) machine) :=
    .look fun machine => machine.registry.group?_on path.textValue
  apply looked.bind
  intro natives
  cases natives with
  | none => exact useFile_follows follows path path.textValue
  | some natives =>
    apply (Action.Follows.trace 1 fun _ => rfl).andThen
    intro _
    rw [← Scope.ofNatives_on]
    exact mergeScope_follows path (.ofNatives natives)

theorem executeStatement_follows (frame : Frame) (stmt : Stmt) :
    Action.Follows ground (·.on ground) (left.executeStatement (frame.on ground) stmt)
      (right.executeStatement frame stmt) :=
  (follows.discipline frame).executeStatement () (Allowance.anything_fitsStatement stmt)
    fun _ path _ => use_follows follows path

end

end Evaluator

/-- However deep evaluation may be nested, on the ground it is what it is alone. -/
theorem evaluator_follows (ground : Ground) (depth : Nat) :
    (evaluator depth).Follows ground (evaluator depth) := by
  induction depth with
  | zero => exact ⟨rfl, fun _ _ _ => rfl, fun _ _ _ => rfl⟩
  | succ depth ih =>
    exact
      ⟨rfl, Evaluator.evaluateExpression_follows ih,
        Evaluator.executeStatement_follows ih⟩

end ArrowScript

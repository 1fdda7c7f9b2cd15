import ArrowScript.Proofs.Evaluation.Carried

namespace ArrowScript

/-!
# What every construct keeps

A discipline is a property of code that holds of what is put together if it
holds of the parts.  It may compare code on a ground with code that runs alone,
and it may say what is known of the results.  Each construct of the language is
put together from the steps that are listed here, so it keeps every discipline
that these steps keep.

What is known may grow while code runs: it belongs to a world, and what comes
behind other code runs in a later world.  What a construct asks for must be
allowed.
-/

namespace Evaluator

variable {α : Type}

/-- Open a new scope inside the scope of a frame and bind names in it. -/
def openBody (parent : Frame) (bindings : List (String × Value)) : Action Frame := do
  let inner ← innerFrame parent
  bindParameters inner.scope bindings
  return inner

theorem openBody_nil (frame : Frame) : openBody frame [] = innerFrame frame := by
  simp [openBody, bindParameters]

theorem executeBlock_eq (evaluator : Evaluator) (frame : Frame) (body : Block) :
    evaluator.executeBlock frame body =
      openBody frame [] >>= fun inner => evaluator.executeBody inner body := by
  rw [openBody_nil]
  rfl

theorem callUser_eq (evaluator : Evaluator) (fn : UserFunction) (args : List Value) :
    evaluator.callUser fn args =
      openBody ⟨fn.closure, fn.source⟩ (fn.parameters.zip args) >>=
        fun inner => do
          let completion ← evaluator.executeBody inner fn.body
          return completion.outcome.value := by
  simp [callUser, openBody]

/-- Run the body of a loop over a collection for one element, in a new scope. -/
def runEach (evaluator : Evaluator) (frame : Frame) (item : Token) (body : Block)
    (value : Value) : Action Completion :=
  openBody frame [(item.lexeme, value)] >>= fun inner => evaluator.executeBody inner body

theorem bind_runEach (evaluator : Evaluator) (frame : Frame) (item : Token) (body : Block)
    (value : Value) (next : Completion → Action α) : (innerFrame frame >>= fun inner =>
        bindParameters inner.scope [(item.lexeme, value)] >>= fun _ =>
          evaluator.executeBody inner body >>= next) =
      evaluator.runEach frame item body value >>= next := by
  simp [runEach, openBody]

/-- Write to the variable that a name stands for. -/
def overwrite (frame : Frame) (name : Token) (value : Value) : Action Value := do
  let owner ← Action.lookUp (some name.start) fun store => store.ownerOf frame.scope name.lexeme
  Action.change (·.setVariable owner name.lexeme value)
  return value

/-- Assign to the value of a key of an object. -/
def assignKey (evaluator : Evaluator) (frame : Frame) (place : Token) (ref : Ref .object)
    (position expression : Expr) : Action Value := do
  let key ← evaluator.evaluateKey frame place ref position
  let value ← evaluator.evaluateReplacing frame (some (← valueOf ref key)) expression
  Action.change (·.setKey ref key value)
  return value

/-- Make a group of the scope of a body and define its name. -/
def defineGroup (frame : Frame) (name : Token) (scope : Ref .scope)
    (isPublic : Bool) : Action Unit := do
  let group ← Action.changeGet (·.newGroup ⟨name.lexeme, scope⟩)
  Action.define (some name.start) frame.scope fun scope =>
    scope.defineGroup name.lexeme { value := group, isPublic := isPublic }
  Action.trace 2 fun _ => "define group " ++ name.lexeme ++ " public=" ++ truthWord isPublic

def newObject (object : Object) : Action Value := do
  return .object (← Action.changeGet (·.newObject object))

end Evaluator

open Evaluator

/-- A property of code, and of code on a ground, that holds of what is put together. -/
structure Habit (ground : Ground) {World : Type}
    (knowledge : World → Knowledge) where
  Holds : {α : Type} → [Carried α] → World → (Evaluator → Action α) →
    (Evaluator → Action α) → Prop
  Later : World → World → Prop
  grows {world later : World} : Later world later → (knowledge world).Within (knowledge later)
  pure {α : Type} [Carried α] {world : World} (result : α) :
    Carried.known (knowledge world) result →
    Holds world (fun _ => Pure.pure (Carried.on result ground)) fun _ => Pure.pure result
  bind {α β : Type} [Carried α] [Carried β] {world : World}
      {left right : Evaluator → Action α}
      {leftNext rightNext : α → Evaluator → Action β} :
    Holds world left right →
    (∀ later,
      Later world later →
      ∀ result,
        Carried.known (knowledge later) result →
        Holds later (leftNext (Carried.on result ground)) (rightNext result)) →
    Holds world (fun evaluator => left evaluator >>= fun result => leftNext result evaluator)
      fun evaluator => right evaluator >>= fun result => rightNext result evaluator

namespace Habit

variable {ground : Ground} {World : Type} {knowledge : World → Knowledge}
  (habit : Habit ground knowledge) {world : World} {frame : Frame} {body : Block}

variable {habit} in
theorem keep [Carried α] {later : World} {result : α} (isLater : habit.Later world later)
    (known : Carried.known (knowledge world) result) : Carried.known (knowledge later) result :=
  Carried.grow (habit.grows isLater) result known

/-- Statements that are handed over in a frame. -/
abbrev Executes (frame : Frame) (stmts : List Stmt) : Prop :=
  ∀ world, ∀ stmt ∈ stmts,
    habit.Holds world (·.execute (Frame.on frame ground) stmt) (·.execute frame stmt)

theorem executeAll {stmts : List Stmt} (executes : habit.Executes frame stmts)
    (last : Outcome) (known : (knowledge world).value last.value) :
    habit.Holds world (·.executeAll (frame.on ground) (last.on ground) stmts)
      (·.executeAll frame last stmts) := by
  induction stmts generalizing last world with
  | nil => exact habit.pure (Completion.normal last) known
  | cons stmt rest ih =>
    have restExecutes : habit.Executes frame rest :=
      fun world each mem => executes world each (List.mem_cons_of_mem _ mem)
    apply habit.bind (executes world stmt List.mem_cons_self)
    intro later isLater completion given
    have both : (knowledge later).value (last.andThen completion.outcome).value :=
      (knowledge later).andThen ((habit.grows isLater).value _ known) given
    cases completion with
    | broke keyword outcome =>
      have ended := habit.pure (Completion.broke keyword (last.andThen outcome)) both
      simpa only [Carried.on, Completion.on, Outcome.andThen_on] using ended
    | normal outcome =>
      have goesOn := ih restExecutes (last.andThen outcome) both
      simpa only [Carried.on, Completion.on, Outcome.andThen_on] using goesOn

theorem executeBody (executes : habit.Executes frame body.statements) :
    habit.Holds world (·.executeBody (frame.on ground) body) (·.executeBody frame body) :=
  habit.executeAll executes .nothing ((knowledge world).plain _ rfl)

section

variable (executes : ∀ inner, habit.Executes inner body.statements)

include executes

theorem executeBlock
    (opens : habit.Holds world (fun _ => innerFrame (frame.on ground)) fun _ => innerFrame frame) :
    habit.Holds world (·.executeBlock (frame.on ground) body) (·.executeBlock frame body) :=
  habit.bind opens fun _ _ inner _ => habit.executeBody (executes inner)

theorem runEach {item : Token} {value : Value} (opens :
      habit.Holds world (fun _ => openBody (frame.on ground) [(item.lexeme, value.on ground)])
        fun _ => openBody frame [(item.lexeme, value)]) :
    habit.Holds world (·.runEach (frame.on ground) item body (value.on ground))
      (·.runEach frame item body value) :=
  habit.bind opens fun _ _ inner _ => habit.executeBody (executes inner)

theorem declareGroup {name : Token} {isPublic : Bool}
    (opens : habit.Holds world (fun _ => innerFrame (frame.on ground)) fun _ => innerFrame frame)
    (refuses : ∀ later keyword, habit.Holds later
      (fun _ => (Action.raiseAt keyword .breakOutside : Action Unit))
      fun _ => Action.raiseAt keyword .breakOutside)
    (defines : ∀ later scope,
      habit.Holds later (fun _ => defineGroup (frame.on ground) name (scope.on ground) isPublic)
        fun _ => defineGroup frame name scope isPublic) :
    habit.Holds world (·.declareGroup (frame.on ground) name body isPublic)
      (·.declareGroup frame name body isPublic) := by
  apply habit.bind opens
  intro _ _ inner _
  apply habit.bind (habit.executeBody (executes inner))
  intro later _ completion _
  cases completion with
  | broke keyword outcome => exact refuses later keyword
  | normal outcome => exact defines later inner.scope

end

theorem callUser (world : World) {fn : UserFunction} {values : List Value}
    (executes : ∀ inner, habit.Executes inner fn.body.statements)
    (opens : habit.Holds world (fun _ =>
        openBody (Frame.on ⟨fn.closure, fn.source⟩ ground)
          (fn.parameters.zip (values.map (·.on ground))))
      fun _ => openBody ⟨fn.closure, fn.source⟩ (fn.parameters.zip values)) :
    habit.Holds world
      (·.callFunction (Function.on (.user fn) ground) (values.map (·.on ground)))
      (·.callFunction (.user fn) values) := by
  simp only [Evaluator.callFunction, Function.on, callUser_eq]
  apply habit.bind opens
  intro _ _ inner _
  apply habit.bind (habit.executeBody (executes inner))
  intro _ _ completion completes
  have ended := habit.pure completion.outcome.value completes
  simpa only [Carried.on, Completion.outcome_on, Outcome.value_on] using ended

theorem executeProgram (world : World) {stmts : List Stmt}
    (executes : habit.Executes frame stmts) (refuses : ∀ later keyword, habit.Holds later
      (fun _ => (Action.raiseAt keyword .breakOutside : Action Unit))
      fun _ => Action.raiseAt keyword .breakOutside) :
    habit.Holds world (·.executeProgram (frame.on ground) stmts)
      (·.executeProgram frame stmts) := by
  induction stmts generalizing world with
  | nil => exact habit.pure () trivial
  | cons stmt rest ih =>
    apply habit.bind (executes world stmt List.mem_cons_self)
    intro later _ completion _
    cases completion with
    | broke keyword outcome => exact refuses later keyword
    | normal outcome =>
      exact ih later fun world each mem =>
        executes world each (List.mem_cons_of_mem _ mem)

end Habit

/-- A property of code in a frame that the steps of evaluation keep. -/
structure Discipline (ground : Ground) {World : Type} (knowledge : World → Knowledge)
    (allowance : Allowance)
    (frame : Frame) extends Habit ground knowledge where
  /-- Worlds in which `@` may be set. -/
  isOpen : World → Prop := fun _ => True
  /-- The world of code behind which `@` is put back. -/
  opens : World → World := id
  isOpen_opens : ∀ world, isOpen (opens world) := by exact fun _ => trivial
  isOpen_later : ∀ {world later}, Later world later → isOpen world → isOpen later := by
    exact fun _ _ => trivial
  opens_within : ∀ world, (knowledge world).Within (knowledge (opens world)) := by
    exact fun _ => .refl _
  -- code that is put together
  keepingContext {α : Type} [Carried α] {world : World} {left right : Evaluator → Action α} :
    Holds (opens world) left right →
    Holds world (fun evaluator => Action.keepingContext (frame.scope.on ground) (left evaluator))
      fun evaluator => Action.keepingContext frame.scope (right evaluator)
  rounds {α : Type} [Carried α] {world : World} {left right : Nat → Evaluator → Action α} :
    (∀ count, Holds world (left count) (right count)) →
    Holds world (fun evaluator => left evaluator.rounds evaluator)
      fun evaluator => right evaluator.rounds evaluator
  -- tasks that are handed over
  evaluate {world : World} {expression : Expr} :
    allowance.hands expression →
    Holds world (·.evaluate (frame.on ground) expression) (·.evaluate frame expression)
  executeBlock {world : World} {body : Block} :
    allowance.block body →
    Holds world (·.executeBlock (frame.on ground) body) (·.executeBlock frame body)
  runEach {world : World} {item : Token} {body : Block} {value : Value} :
    allowance.each item body →
    (knowledge world).value value →
    Holds world (·.runEach (frame.on ground) item body (value.on ground))
      (·.runEach frame item body value)
  declareGroup {world : World} {name : Token} {body : Block} (isPublic : Bool) :
    allowance.group name body →
    Holds world (·.declareGroup (frame.on ground) name body isPublic)
      (·.declareGroup frame name body isPublic)
  -- failures
  raiseAt {α : Type} [Carried α] {world : World} {fault : Fault} (token : Token) :
    allowance.fault fault →
    Holds world (fun _ => (Action.raiseAt token fault : Action α))
      fun _ => Action.raiseAt token fault
  exhausted {α : Type} [Carried α] {world : World} :
    Holds world (fun _ => (throw .exhausted : Action α)) fun _ => throw .exhausted
  strays {α : Type} [Carried α] {world : World} :
    allowance.strays →
    Holds world (fun _ => (throw .unexpectedNode : Action α)) fun _ => throw .unexpectedNode
  -- looking at arrays, objects and groups
  viewItems {α : Type} [Carried α] {world : World} (ref : Ref .array)
    (view : Array Value → α) :
    (∀ items, view (items.map (·.on ground)) = Carried.on (view items) ground) →
    (∀ each items, Carried.known each items → Carried.known each (view items)) →
    Holds world (fun _ => Action.inspect fun store => view (store.items (ref.on ground)))
      fun _ => Action.inspect fun store => view (store.items ref)
  viewObject {α : Type} [Carried α] {world : World}
      (ref : Ref .object) (viewOn view : Object → α) :
    (∀ object : Object, viewOn (object.on ground) = Carried.on (view object) ground) →
    (∀ each (object : Object), Carried.known each object → Carried.known each (view object)) →
    Holds world (fun _ => Action.inspect fun store => viewOn (store.object (ref.on ground)))
      fun _ => Action.inspect fun store => view (store.object ref)
  text {world : World} (value : Value) :
    Holds world (fun _ => Action.inspect fun store => store.text false (value.on ground))
      fun _ => Action.inspect fun store => store.text false value
  group {world : World} (ref : Ref .group) :
    Holds world (fun _ => Action.inspect (·.group (ref.on ground)))
      fun _ => Action.inspect (·.group ref)
  hasGroup {world : World} (scope : Ref .scope) (name : String) :
    Holds world
      (fun _ => Action.inspect fun store => (store.scope (scope.on ground)).groups.has name)
      fun _ => Action.inspect fun store => (store.scope scope).groups.has name
  context {world : World} :
    allowance.reads →
    Holds world
      (fun _ => Action.inspect fun store => (store.scope (frame.scope.on ground)).context)
      fun _ => Action.inspect fun store => (store.scope frame.scope).context
  -- looking up names
  readVariable {world : World} (name : Token) :
    Holds world (fun _ => readVariable (frame.on ground) name) fun _ => readVariable frame name
  overwrite {world : World} {value : Value} (name : Token) :
    (knowledge world).value value →
    Holds world (fun _ => overwrite (frame.on ground) name (value.on ground))
      fun _ => overwrite frame name value
  functionNamed {world : World} (name : Token) :
    Holds world (·.resolveCallee (frame.on ground) (.functionName name))
      (·.resolveCallee frame (.functionName name))
  groupNamed {world : World} (name : Token) :
    Holds world
      (fun _ => Action.lookUp (some name.start) fun store =>
        store.groupNamed (frame.scope.on ground) name.lexeme)
      fun _ => Action.lookUp (some name.start) fun store => store.groupNamed frame.scope name.lexeme
  member {world : World} (kind : NameKind) (group : Group) (name : String) (place : Position) :
    Holds world
      (fun _ => Action.lookUp (some place) fun store =>
        store.member kind (Scope.names kind) (group.scope.on ground) (frame.scope.on ground) name)
      fun _ => Action.lookUp (some place) fun store =>
        store.member kind (Scope.names kind) group.scope frame.scope name
  -- changes
  setContext {world : World} {context : Option Value} :
    isOpen world →
    Carried.known (knowledge world) context →
    Holds world (fun _ => setContext (frame.on ground) (context.map (·.on ground)))
      fun _ => setContext frame context
  traceCondition {world : World} (word : String) (condition : Value) :
    Holds world (fun _ => traceCondition word (condition.on ground))
      fun _ => traceCondition word condition
  declareVariable {world : World} {name : Token} {value : Value} (isPublic : Bool) :
    allowance.binds name →
    (knowledge world).value value →
    Holds world (fun _ => declareVariable (frame.on ground) name (value.on ground) isPublic)
      fun _ => declareVariable frame name value isPublic
  declareFunction {world : World} {name : Token} {parameters : List Token} {body : Block}
      (isPublic : Bool) :
    allowance.defines name parameters body →
    Holds world (fun _ => declareFunction (frame.on ground) name parameters body isPublic)
      fun _ => declareFunction frame name parameters body isPublic
  changeItems {world : World} (ref : Ref .array) (changeOn change : Array Value → Array Value) :
    (∀ items, changeOn (items.map (·.on ground)) = (change items).map (·.on ground)) →
    (∀ later, (knowledge world).Within later →
      ∀ items, Carried.known later items → Carried.known later (change items)) →
    Holds world (fun _ => Action.change (·.modifyArray (ref.on ground) changeOn))
      fun _ => Action.change (·.modifyArray ref change)
  newArray {world : World} {values : Array Value} :
    Carried.known (knowledge world) values →
    Holds world (fun _ => Native.newArray (values.map (·.on ground)))
      fun _ => Native.newArray values
  newObject {world : World} {object : Object} :
    Carried.known (knowledge world) object →
    Holds world (fun _ => newObject (object.on ground)) fun _ => newObject object

section

variable {ground : Ground} {World : Type} {knowledge : World → Knowledge} {allowance : Allowance}
  {frame : Frame}

/-- Constructs that a discipline may keep for a reason of its own. -/
structure Discipline.Special (rules : Discipline ground knowledge allowance frame) : Prop where
  assignKey {world : World} {position expression : Expr} (place : Token) (ref : Ref .object) :
    rules.isOpen world →
    allowance.hands position →
    allowance.hands expression →
    rules.Holds world (·.assignKey (frame.on ground) place (ref.on ground) position expression)
      (·.assignKey frame place ref position expression)
  assignMember {world : World} {group expression : Expr} (name : Token) :
    rules.isOpen world →
    allowance.hands group →
    allowance.hands expression →
    rules.Holds world (·.assignMember (frame.on ground) group name expression)
      (·.assignMember frame group name expression)

/-- What a discipline has to keep in a call. -/
structure Discipline.Calling (rules : Discipline ground knowledge allowance frame) : Prop where
  inCall {world : World} {left right : Evaluator → Action Value} (site : CallSite) :
    rules.Holds world left right →
    rules.Holds world (fun evaluator => Action.inCall site (left evaluator))
      fun evaluator => Action.inCall site (right evaluator)
  trace {world : World} (name : Token) (values : List Value) :
    rules.Holds world
      (fun _ => Action.trace 3 fun store =>
        "call " ++ name.lexeme ++ "(" ++
          Store.commaSeparated ((values.map (·.on ground)).map (store.text true)) ++ ")")
      fun _ => Action.trace 3 fun store =>
        "call " ++ name.lexeme ++ "(" ++ Store.commaSeparated (values.map (store.text true)) ++ ")"
  callFunction {world : World} {function : Function} {values : List Value} :
    (knowledge world).function function →
    Carried.known (knowledge world) values →
    rules.Holds world (·.callFunction (function.on ground) (values.map (·.on ground)))
      (·.callFunction function values)

end

namespace Discipline

variable {ground : Ground} {World : Type} {knowledge : World → Knowledge} {allowance : Allowance}
  {frame : Frame} (rules : Discipline ground knowledge allowance frame) {world : World}
  {expression position : Expr}

/-- Code in the frame keeps a discipline. -/
abbrev Does [Carried α] (world : World) (code : Frame → Evaluator → Action α) : Prop :=
  rules.Holds world (code (frame.on ground)) (code frame)

theorem refuse [Carried α] (token : Token) {fault : Fault} (possible : fault.Possible) :
    rules.Holds world (fun _ => (Action.raiseAt token fault : Action α))
      fun _ => Action.raiseAt token fault :=
  rules.raiseAt token (allowance.possible fault possible)

theorem refuse_bind [Carried β] {token : Token} {fault : Fault}
    {leftNext rightNext : α → Evaluator → Action β}
    (possible : fault.Possible) : rules.Holds world
      (fun evaluator => Action.raiseAt token fault >>= fun result => leftNext result evaluator)
      fun evaluator => Action.raiseAt token fault >>= fun result => rightNext result evaluator :=
  rules.refuse token possible

theorem checked [Carried α] {result resultOn : Except Fault α} (token : Token)
    (same : resultOn = result.map (Carried.on · ground))
    (known : ∀ value, result = .ok value → Carried.known (knowledge world) value)
    (allowed : ∀ fault, result = .error fault → allowance.fault fault) :
    rules.Holds world (fun _ => Evaluator.checked token resultOn)
      fun _ => Evaluator.checked token result := by
  subst same
  cases result with
  | ok value => exact rules.pure value (known value rfl)
  | error fault => exact rules.raiseAt token (allowed fault rfl)

theorem plain (value : Value) (isPlain : value.isPlain = true) :
    rules.Holds world (fun _ => Pure.pure (value.on ground)) fun _ => Pure.pure value :=
  rules.pure value ((knowledge world).plain value isPlain)

theorem otherwise {otherwise : Option Block} : (∀ body ∈ otherwise, allowance.block body) →
    rules.Does world fun frame evaluator =>
      match otherwise with
      | some body => evaluator.executeBlock frame body
      | none => Pure.pure (.normal .nothing) := by
  intro allowed
  cases otherwise with
  | none => exact rules.pure (Completion.normal .nothing) ((knowledge world).plain _ rfl)
  | some body => exact rules.executeBlock (allowed body rfl)

theorem executeBranches {otherwise : Option Block} {branches : List Arm}
    (fits : allowance.FitsArms branches otherwise) :
    rules.Does world fun frame => (·.executeBranches frame otherwise branches) := by
  obtain ⟨branchesFit, otherwiseFits⟩ := fits
  induction branches generalizing world with
  | nil => exact rules.otherwise otherwiseFits
  | cons branch rest ih =>
    obtain ⟨⟨condition, body⟩, later⟩ := List.forall_mem_cons.mp branchesFit
    apply rules.bind (rules.evaluate condition)
    intro _ _ condition _
    apply rules.bind (rules.traceCondition _ condition)
    intro _ _ _ _
    simp only [Carried.on, Value.isTrue_on]
    cases condition.isTrue with
    | true => exact rules.executeBlock body
    | false => exact ih later

theorem executeArms {subject : Value} {otherwise : Option Block} {arms : List Arm}
    (isOpen : rules.isOpen world) (known : Carried.known (knowledge world) subject)
    (fits : allowance.FitsArms arms otherwise) :
    rules.Holds world (·.executeArms (frame.on ground) (subject.on ground) otherwise arms)
      (·.executeArms frame subject otherwise arms) := by
  have cleared :
      ∀ world, rules.isOpen world → rules.Holds world _ fun _ =>
        Evaluator.setContext frame none :=
    fun _ isOpen => rules.setContext isOpen Carried.known_none
  obtain ⟨armsFit, otherwiseFits⟩ := fits
  induction arms generalizing world with
  | nil => exact rules.bind (cleared world isOpen) fun _ _ _ _ => rules.otherwise otherwiseFits
  | cons arm rest ih =>
    obtain ⟨⟨condition, body⟩, restFits⟩ := List.forall_mem_cons.mp armsFit
    apply rules.bind (rules.setContext isOpen (Carried.known_some known))
    intro first isFirst _ _
    apply rules.bind (rules.evaluate condition)
    intro second isSecond condition _
    apply rules.bind (rules.traceCondition _ condition)
    intro third isThird _ _
    have stillOpen := rules.isOpen_later isThird
      (rules.isOpen_later isSecond (rules.isOpen_later isFirst isOpen))
    simp only [Carried.on, Value.isTrue_on]
    cases condition.isTrue with
    | true => exact rules.bind (cleared third stillOpen) fun _ _ _ _ => rules.executeBlock body
    | false =>
      have stillKnown := Habit.keep isThird (Habit.keep isSecond (Habit.keep isFirst known))
      exact ih stillOpen stillKnown restFits

theorem executeMatch {subject : Expr} {arms : List Arm} {otherwise : Option Block}
    (hands : allowance.hands subject) (fits : allowance.FitsArms arms otherwise) :
    rules.Does world fun frame => (·.executeMatch frame subject arms otherwise) := by
  apply rules.bind (rules.evaluate hands)
  intro later _ value known
  exact rules.keepingContext
    (rules.executeArms (rules.isOpen_opens later) ((rules.opens_within later).value _ known) fits)

theorem evaluateGroup (hands : allowance.hands expression) :
    rules.Does world fun frame => (·.evaluateGroup frame expression) := by
  apply rules.bind (rules.evaluate hands)
  intro _ _ value _
  cases value with
  | group ref => exact rules.group ref
  | _ => exact rules.refuse _ trivial

variable (place : Token)

theorem evaluateIndex (hands : allowance.hands position) :
    rules.Does world fun frame => (·.evaluateIndex frame place position) := by
  apply rules.bind (rules.evaluate hands)
  intro _ _ value _
  apply rules.checked place
  · simp only [Carried.on, Operator.index_on]
    exact (id_map _).symm
  · exact fun _ _ => trivial
  · exact fun fault failed => allowance.possible fault (Operator.possible_of_index failed)

theorem bounded (index : Int) (length : Nat) :
    rules.Holds world (fun _ => Evaluator.checked place (Operator.bounded index length))
      fun _ => Evaluator.checked place (Operator.bounded index length) :=
  rules.checked place (id_map _).symm (fun _ _ => trivial) fun fault failed =>
    allowance.possible fault (Operator.possible_of_bounded failed)

theorem boundedIn (ref : Ref .array) (index : Int) :
    rules.Holds world (fun _ => Evaluator.boundedIn place (ref.on ground) index)
      fun _ => Evaluator.boundedIn place ref index := by
  apply rules.bind
    (rules.viewItems ref Array.size (fun _ => Array.size_map) fun _ _ _ => trivial)
  exact fun _ _ size _ => rules.bounded place index size

theorem itemAt (ref : Ref .array) (index : Nat) :
    rules.Holds world (fun _ => Evaluator.itemAt (ref.on ground) index)
      fun _ => Evaluator.itemAt ref index := by
  apply rules.viewItems ref (·.getD index Value.null)
  · intro items
    simp only [Array.getD_eq_getD_getElem?, Array.getElem?_map]
    cases items[index]? <;> rfl
  · intro each items known
    rw [Array.getD_eq_getD_getElem?]
    cases found : items[index]? with
    | none => exact each.plain _ rfl
    | some value => exact known value (Array.mem_of_getElem? found)

theorem evaluateKey (ref : Ref .object) (hands : allowance.hands position) :
    rules.Holds world (·.evaluateKey (frame.on ground) place (ref.on ground) position)
      (·.evaluateKey frame place ref position) := by
  apply rules.bind (rules.evaluate hands)
  intro _ _ key known
  simp only [Carried.on, Value.isNull_on]
  split
  · exact rules.refuse_bind trivial
  apply rules.bind
    (rules.viewObject ref (·.contains (key.on ground)) (·.contains key)
      (fun object => object.contains_on key) fun _ _ _ => trivial)
  intro _ isLater isThere _
  cases isThere with
  | true => exact rules.pure key (Habit.keep isLater known)
  | false => exact rules.bind (rules.text key) fun _ _ _ _ => rules.refuse _ trivial

theorem valueOf (ref : Ref .object) (key : Value) :
    rules.Holds world (fun _ => Evaluator.valueOf (ref.on ground) (key.on ground))
      fun _ => Evaluator.valueOf ref key := by
  apply rules.viewObject ref (fun object => (object.get? (key.on ground)).getD Value.null)
    fun object => (object.get? key).getD Value.null
  · intro object
    rw [Object.get?_on]
    cases object.get? key <;> rfl
  · intro each object known
    unfold Object.get?
    cases found : object.find? fun item => item.key.label.same key.label with
    | none => exact each.plain _ rfl
    | some item => exact (known item (List.mem_of_find?_eq_some found)).2

theorem evaluateElement {base : Expr} (handsBase : allowance.hands base)
    (hands : allowance.hands position) :
    rules.Does world fun frame => (·.evaluateElement frame base position) := by
  apply rules.bind (rules.evaluate handsBase)
  intro _ _ container _
  cases container with
  | array ref =>
    apply rules.bind (rules.evaluateIndex _ hands)
    intro _ _ index _
    exact rules.bind (rules.boundedIn _ ref index) fun _ _ bounded _ => rules.itemAt ref bounded
  | text value =>
    apply rules.bind (rules.evaluateIndex _ hands)
    intro _ _ index _
    apply rules.bind (rules.bounded _ index _)
    intro _ _ bounded _
    simp only [Carried.on]
    cases value.toList[bounded]? with
    | none => exact rules.plain .null rfl
    | some char => exact rules.plain (.ofCharacter char) rfl
  | object ref =>
    exact rules.bind (rules.evaluateKey _ ref hands) fun _ _ key _ => rules.valueOf ref key
  | _ => exact rules.refuse _ trivial

theorem evaluateReplacing {replaced : Option Value} (isOpen : rules.isOpen world)
    (known : Carried.known (knowledge world) replaced) (hands : allowance.hands expression) :
    rules.Holds world
      (·.evaluateReplacing (frame.on ground) (replaced.map (·.on ground)) expression)
      (·.evaluateReplacing frame replaced expression) :=
  rules.bind (rules.setContext isOpen known) fun _ _ _ _ => rules.evaluate hands

theorem evaluateItems (items : Array Value) {additions : List ArrayItem}
    (known : Carried.known (knowledge world) items)
    (hands : ∀ item ∈ additions, allowance.hands item.value) :
    rules.Holds world (·.evaluateItems (frame.on ground) (items.map (·.on ground)) additions)
      (·.evaluateItems frame items additions) := by
  induction additions generalizing items world with
  | nil => exact rules.pure items known
  | cons item rest ih =>
    obtain ⟨first, restHands⟩ := List.forall_mem_cons.mp hands
    unfold Evaluator.evaluateItems
    apply rules.bind (rules.evaluate first)
    intro later isLater value valueKnown
    have itemsKnown := Habit.keep isLater known
    split
    · cases value with
      | array ref =>
        apply rules.bind (rules.viewItems ref id (fun _ => rfl) fun _ _ known => known)
        intro latest isLatest spread spreadKnown
        have stillKnown := Habit.keep isLatest itemsKnown
        simp only [Carried.on, ← Array.map_append]
        apply ih _ _ restHands
        intro each mem
        exact (Array.mem_append.mp mem).elim (stillKnown each) (spreadKnown each)
      | _ => exact rules.refuse _ trivial
    · simp only [Carried.on, ← Array.map_push]
      apply ih _ _ restHands
      intro each mem
      rcases Array.mem_push.mp mem with old | rfl
      · exact itemsKnown each old
      · exact valueKnown

theorem evaluateEntries (object : Object) {additions : List ObjectItem}
    (known : Carried.known (knowledge world) object)
    (hands : ∀ item ∈ additions, allowance.hands item.expression) :
    rules.Holds world (·.evaluateEntries (frame.on ground) (object.on ground) additions)
      (·.evaluateEntries frame object additions) := by
  induction additions generalizing object world with
  | nil => exact rules.pure object known
  | cons item rest ih =>
    obtain ⟨first, restHands⟩ := List.forall_mem_cons.mp hands
    cases item with
    | entry key token expression =>
      apply rules.bind (rules.evaluate first)
      intro later isLater value valueKnown
      simp only
      split
      · exact rules.refuse_bind trivial
      · simp only [Carried.on]
        rw [← Value.ofConstant_on, Object.set_on, Value.ofConstant_on]
        have set := Object.forall_set (Habit.keep isLater known)
          ((knowledge later).ofConstant key) valueKnown
        exact ih _ set restHands
    | spread expression =>
      apply rules.bind (rules.evaluate first)
      intro _ isLater value _
      cases value with
      | object ref =>
        apply rules.bind (rules.viewObject ref id id (fun _ => rfl) fun _ _ known => known)
        intro _ isLatest spread spreadKnown
        simp only [Carried.on, Object.setAll_on]
        have stillKnown := Habit.keep isLatest (Habit.keep isLater known)
        exact ih _ (Object.forall_setAll stillKnown spreadKnown) restHands
      | _ => exact rules.refuse _ trivial

theorem evaluateParts (text : String) {parts : List Expr}
    (hands : ∀ part ∈ parts, allowance.hands part) :
    rules.Does world fun frame => (·.evaluateParts frame text parts) := by
  induction parts generalizing text world with
  | nil => exact rules.pure text trivial
  | cons part rest ih =>
    obtain ⟨first, restHands⟩ := List.forall_mem_cons.mp hands
    apply rules.bind (rules.evaluate first)
    intro _ _ value _
    exact rules.bind (rules.text value) fun _ _ _ _ => ih _ restHands

theorem evaluateArguments {args : List Expr} (hands : ∀ arg ∈ args, allowance.hands arg) :
    rules.Does world fun frame => (·.evaluateArguments frame args) := by
  induction args generalizing world with
  | nil => exact rules.pure ([] : List Value) (by simp [Carried.known])
  | cons arg rest ih =>
    obtain ⟨first, restHands⟩ := List.forall_mem_cons.mp hands
    apply rules.bind (rules.evaluate first)
    intro _ _ value known
    apply rules.bind (ih restHands)
    exact fun _ isLater values restKnown =>
      rules.pure (value :: values)
        (List.forall_mem_cons.mpr ⟨(rules.grows isLater).value _ known, restKnown⟩)

theorem resolveCallee {callee : Expr} (fits : allowance.FitsCallee callee) :
    rules.Does world fun frame => (·.resolveCallee frame callee) := by
  cases callee with
  | functionName name => exact rules.functionNamed name
  | groupMember group name =>
    apply rules.bind (rules.evaluateGroup fits)
    intro _ _ group _
    apply rules.bind (rules.member .functionName group name.textValue name.start)
    exact fun _ _ entry known => rules.pure (entry.value, name) known
  | _ => exact rules.raiseAt _ fits

theorem evaluateCall (calling : rules.Calling) (world : World) {callee : Expr}
    {args : List Expr} (fits : allowance.Fits (.call callee args)) :
    rules.Does world fun frame => (·.evaluateCall frame callee args) := by
  apply rules.bind (rules.evaluateArguments fits.2)
  intro _ _ values known
  apply rules.bind (rules.resolveCallee fits.1)
  rintro _ isLater ⟨fn, name⟩ functionKnown
  simp only [Carried.on, Function.arity_on, List.length_map]
  split
  · exact rules.refuse_bind trivial
  apply rules.bind (calling.trace name values)
  intro _ isLatest _ _
  have called := calling.callFunction ((rules.grows isLatest).function _ functionKnown)
    (Habit.keep isLatest (Habit.keep isLater known))
  exact calling.inCall _ called

theorem declareWithValue {name : Token} (binds : allowance.binds name)
    (hands : allowance.hands expression) (isPublic : Bool) :
    rules.Does world fun frame => (·.declareWithValue frame name expression isPublic) := by
  apply rules.keepingContext
  apply rules.bind
    (rules.evaluateReplacing (rules.isOpen_opens world) Carried.known_none hands)
  intro _ _ value known
  exact rules.bind (rules.declareVariable isPublic binds known) fun _ isLater _ _ =>
    rules.pure value (Habit.keep isLater known)

theorem assignVariable (isOpen : rules.isOpen world) (name : Token)
    (hands : allowance.hands expression) :
    rules.Does world fun frame => (·.assignVariable frame name expression) := by
  apply rules.bind (rules.readVariable name)
  intro _ isLater replaced replacedKnown
  apply rules.bind
    (rules.evaluateReplacing (rules.isOpen_later isLater isOpen)
      (Carried.known_some replacedKnown) hands)
  exact fun _ _ value known => rules.overwrite name known

theorem assignMember
    (writes : ∀ later owner name value, (knowledge later).value value → rules.Holds later
      (fun _ => Action.change (·.setVariable (owner.on ground) name (value.on ground)))
      fun _ => Action.change (·.setVariable owner name value))
    {group : Expr} (name : Token) (isOpen : rules.isOpen world) (handsGroup : allowance.hands group)
    (hands : allowance.hands expression) :
    rules.Does world fun frame => (·.assignMember frame group name expression) := by
  apply rules.bind (rules.evaluateGroup handsGroup)
  intro _ isFirst group _
  apply rules.bind (rules.member .variableName group name.lexeme name.start)
  intro _ isSecond entry entryKnown
  have stillOpen := rules.isOpen_later isSecond (rules.isOpen_later isFirst isOpen)
  apply rules.bind
    (rules.evaluateReplacing stillOpen (Carried.known_some entryKnown) hands)
  intro later _ value known
  exact rules.bind (writes later group.scope name.lexeme value known) fun _ isLater _ _ =>
    rules.pure value (Habit.keep isLater known)

theorem assignKey
    (writes : ∀ later ref key value, (knowledge later).value key →
      (knowledge later).value value →
      rules.Holds later
        (fun _ => Action.change (·.setKey (ref.on ground) (key.on ground) (value.on ground)))
        fun _ => Action.change (·.setKey ref key value))
    (place : Token) (ref : Ref .object) (isOpen : rules.isOpen world)
    (handsPosition : allowance.hands position) (hands : allowance.hands expression) :
    rules.Holds world (·.assignKey (frame.on ground) place (ref.on ground) position expression)
      (·.assignKey frame place ref position expression) := by
  apply rules.bind (rules.evaluateKey place ref handsPosition)
  intro _ isFirst key keyKnown
  apply rules.bind (rules.valueOf ref key)
  intro _ isSecond replaced replacedKnown
  have stillOpen := rules.isOpen_later isSecond (rules.isOpen_later isFirst isOpen)
  apply rules.bind
    (rules.evaluateReplacing stillOpen (Carried.known_some replacedKnown) hands)
  intro later isThird value known
  have keyStillKnown := Habit.keep isThird (Habit.keep isSecond keyKnown)
  exact rules.bind (writes later ref key value keyStillKnown known) fun _ isLater _ _ =>
    rules.pure value (Habit.keep isLater known)

theorem assignElement (special : rules.Special) {base : Expr} (isOpen : rules.isOpen world)
    (handsBase : allowance.hands base) (handsPosition : allowance.hands position)
    (hands : allowance.hands expression) :
    rules.Does world fun frame => (·.assignElement frame base position expression) := by
  apply rules.bind (rules.evaluate handsBase)
  intro _ isFirst container _
  have baseOpen := rules.isOpen_later isFirst isOpen
  cases container with
  | array ref =>
    apply rules.bind (rules.evaluateIndex _ handsPosition)
    intro _ isSecond index _
    apply rules.bind (rules.boundedIn _ ref index)
    intro _ isThird bounded _
    apply rules.bind (rules.itemAt ref bounded)
    intro _ isFourth item itemKnown
    have stillOpen := rules.isOpen_later isFourth
      (rules.isOpen_later isThird (rules.isOpen_later isSecond baseOpen))
    apply rules.bind
      (rules.evaluateReplacing stillOpen (Carried.known_some itemKnown) hands)
    intro _ _ value known
    apply rules.bind (rules.boundedIn _ ref index)
    intro latest isLatest place _
    have stillKnown := Habit.keep isLatest known
    have changed :=
      rules.changeItems ref (·.setIfInBounds place (value.on ground))
        (·.setIfInBounds place value) (fun items => Array.map_setIfInBounds.symm) (by
          intro later within items itemsKnown each mem
          rcases Array.mem_or_eq_of_mem_setIfInBounds mem with old | rfl
          · exact itemsKnown each old
          · exact within.value _ stillKnown)
    exact rules.bind changed fun _ isLater _ _ =>
      rules.pure value (Habit.keep isLater stillKnown)
  | object ref => exact special.assignKey _ ref baseOpen handsPosition hands
  | _ => exact rules.refuse _ trivial

theorem evaluateAssign (special : rules.Special) {target : Expr}
    (fits : allowance.FitsTarget target) (hands : allowance.hands expression) :
    rules.Does world fun frame => (·.evaluateAssign frame target expression) := by
  have isOpen := rules.isOpen_opens world
  cases target with
  | declaration keyword name => exact rules.declareWithValue fits hands false
  | reference name => exact rules.keepingContext (rules.assignVariable isOpen name hands)
  | element base position opening closing =>
    exact rules.keepingContext (rules.assignElement special isOpen fits.1 fits.2 hands)
  | groupMember group name =>
    exact rules.keepingContext (special.assignMember name isOpen fits hands)
  | _ => exact rules.raiseAt _ fits

theorem evaluatePush (target : Token) (hands : allowance.hands expression) :
    rules.Does world fun frame => (·.evaluatePush frame target expression) := by
  apply rules.bind (rules.readVariable target)
  intro _ _ array _
  apply rules.bind (rules.evaluate hands)
  intro _ _ value known
  cases array with
  | array ref =>
    have pushed :=
      rules.changeItems ref (·.push (value.on ground)) (·.push value)
        (fun items => Array.map_push.symm) (by
          intro later within items itemsKnown each mem
          rcases Array.mem_push.mp mem with old | rfl
          · exact itemsKnown each old
          · exact within.value _ known)
    exact rules.bind pushed fun _ isLater _ _ => rules.pure value (Habit.keep isLater known)
  | _ => exact rules.refuse _ trivial

theorem evaluateMember {group : Expr} (hands : allowance.hands group) (name : Token) :
    rules.Does world fun frame => (·.evaluateMember frame group name) := by
  apply rules.bind (rules.evaluateGroup hands)
  intro _ _ group _
  apply rules.bind (rules.hasGroup group.scope name.lexeme)
  intro _ _ isGroup _
  cases isGroup with
  | true =>
    apply rules.bind (rules.member .groupName group name.lexeme name.start)
    exact fun _ _ entry _ => rules.plain (.group entry.value) rfl
  | false =>
    apply rules.bind (rules.member .variableName group name.lexeme name.start)
    exact fun _ _ entry known => rules.pure (Entry.value entry) known

theorem evaluateOutcome (fits : allowance.FitsOutcome expression) :
    rules.Does world fun frame => (·.evaluateOutcome frame expression) := by
  cases expression with
  | block body => exact rules.executeBlock fits
  | choice keyword subject arms otherwise closing => exact rules.executeMatch fits.1 fits.2
  | _ =>
    apply rules.bind (rules.evaluate fits)
    exact fun _ _ value known => rules.pure (Completion.normal (.produced value)) known

theorem outcomeValue {completion : Completion}
    (known : Carried.known (knowledge world) completion) :
    rules.Holds world (fun _ => Evaluator.outcomeValue (completion.on ground))
      fun _ => Evaluator.outcomeValue completion := by
  cases completion with
  | broke keyword outcome => exact rules.refuse _ trivial
  | normal outcome =>
    show rules.Holds world (fun _ => Pure.pure (outcome.on ground).value) _
    rw [Outcome.value_on]
    exact rules.pure outcome.value known

/-- Every expression keeps a discipline, if the call does that it may be. -/
theorem evaluateExpression (special : rules.Special) (world : World)
    (fits : allowance.Fits expression)
    (calls : ∀ callee args, expression = .call callee args →
      rules.Does world fun frame => (·.evaluateCall frame callee args)) :
    rules.Does world fun frame => (·.evaluateExpression frame expression) := by
  cases expression with
  | literal value token =>
    have given := rules.pure (Value.ofConstant value) ((knowledge world).ofConstant value)
    simp only [Carried.on, Value.ofConstant_on] at given
    exact given
  | grouping inner opening closing => exact rules.evaluate fits
  | reference name => exact rules.readVariable name
  | context token =>
    apply rules.bind (rules.context fits)
    intro _ _ context known
    cases context with
    | none => exact rules.refuse _ trivial
    | some value => exact rules.pure value (known value rfl)
  | binary op first second =>
    apply rules.bind (rules.evaluate fits.1)
    intro _ _ firstValue _
    apply rules.bind (rules.evaluate fits.2.1)
    intro later _ secondValue _
    apply rules.checked op (Operator.binary_on _ firstValue secondValue)
    · exact fun value ran => (knowledge later).plain value (Operator.isPlain_of_binary ran)
    · intro fault failed
      by_cases isOperator : op.kind.level = 0
      · exact fits.2.2 isOperator fault
      · exact allowance.possible fault (Operator.possible_of_binary isOperator failed)
  | unary op operand =>
    apply rules.bind (rules.evaluate fits)
    intro later _ value _
    apply rules.checked op (Operator.unary_on _ value)
    · exact fun value ran => (knowledge later).plain value (Operator.isPlain_of_unary ran)
    · exact fun fault failed => allowance.possible fault (Operator.possible_of_unary failed)
  | block body => exact rules.bind (rules.executeBlock fits) fun _ _ _ => rules.outcomeValue
  | choice keyword subject arms otherwise closing =>
    exact rules.bind (rules.executeMatch fits.1 fits.2) fun _ _ _ => rules.outcomeValue
  | declaration keyword name =>
    apply rules.bind
      (rules.declareVariable false fits ((knowledge world).plain .null rfl))
    exact fun _ _ _ _ => rules.plain .null rfl
  | assign target value => exact rules.evaluateAssign special fits.1 fits.2
  | call callee args => exact calls callee args rfl
  | array opening items closing =>
    have evaluated : rules.Does world fun frame => (·.evaluateItems frame #[] items) := by
      simpa using rules.evaluateItems #[] (by simp [Carried.known]) fits
    exact rules.bind evaluated fun _ _ values known => rules.newArray known
  | object opening items closing =>
    apply rules.bind (rules.evaluateEntries [] (by simp [Carried.known]) fits)
    exact fun _ _ object known => rules.newObject known
  | element base position opening closing => exact rules.evaluateElement fits.1 fits.2
  | push target value closing => exact rules.evaluatePush target fits
  | interpolation opening parts closing =>
    apply rules.bind (rules.evaluateParts "" fits)
    exact fun _ _ text _ => rules.plain (.text text) rfl
  | groupName name =>
    apply rules.bind (rules.groupNamed name)
    exact fun _ _ ref _ => rules.plain (.group ref) rfl
  | groupMember group name => exact rules.evaluateMember fits name
  | functionName name => exact rules.strays fits

theorem declare (isPublic : Bool) {stmt : Stmt} (fits : allowance.FitsDeclaration stmt) :
    rules.Does world fun frame => (·.declare frame isPublic stmt) := by
  have nothing : ∀ later, rules.Holds later _ fun _ => Pure.pure Outcome.nothing :=
    fun later => rules.pure Outcome.nothing ((knowledge later).plain _ rfl)
  unfold Evaluator.declare
  split
  · exact rules.bind (rules.declareFunction isPublic fits) fun later _ _ _ => nothing later
  · exact rules.bind (rules.declareGroup isPublic fits) fun later _ _ _ => nothing later
  · apply rules.bind (rules.declareVariable isPublic fits ((knowledge world).plain .null rfl))
    exact fun later _ _ _ => nothing later
  · apply rules.bind (rules.declareWithValue fits.1 fits.2 isPublic)
    exact fun _ _ value known => rules.pure (Outcome.produced value) known
  · rename_i notFunction notGroup notVariable notAssigned
    apply rules.raiseAt
    unfold Allowance.FitsDeclaration at fits
    split at fits
    · exact (notFunction _ _ _ _ rfl).elim
    · exact (notGroup _ _ _ rfl).elim
    · exact (notVariable _ _ rfl).elim
    · exact (notAssigned _ _ _ rfl).elim
    · exact fits

theorem executeLoop {condition : Expr} {body : Block} (hands : allowance.hands condition)
    (allowed : allowance.block body) (rounds : Nat) (last : Outcome)
    (known : (knowledge world).value last.value) :
    rules.Holds world (·.executeLoop (frame.on ground) condition body rounds (last.on ground))
      (·.executeLoop frame condition body rounds last) := by
  induction rounds generalizing last world with
  | zero => exact rules.exhausted
  | succ rounds ih =>
    apply rules.bind (rules.evaluate hands)
    intro _ isFirst value _
    apply rules.bind (rules.traceCondition _ value)
    intro _ isSecond _ _
    simp only [Carried.on, Value.isTrue_on]
    cases value.isTrue with
    | true =>
      apply rules.bind (rules.executeBlock allowed)
      intro _ _ completion completes
      cases completion with
      | broke keyword outcome => exact rules.pure outcome completes
      | normal outcome => exact ih outcome completes
    | false => exact rules.pure last (Habit.keep isSecond (Habit.keep isFirst known))

theorem elementsOf (collection : Value) :
    rules.Holds world (fun _ => Evaluator.elementsOf place (collection.on ground))
      fun _ => Evaluator.elementsOf place collection := by
  cases collection with
  | array ref =>
    apply rules.viewItems ref Array.toList
    · exact fun items => Array.toList_map
    · exact fun _ items known value mem => known value (Array.mem_toList_iff.mp mem)
  | text value =>
    have known : Carried.known (knowledge world) (value.toList.map Value.ofCharacter) := by
      intro each mem
      obtain ⟨char, -, rfl⟩ := List.mem_map.mp mem
      exact (knowledge world).plain _ rfl
    have given := rules.pure _ known
    simp only [Carried.on, List.map_map] at given
    exact given
  | _ => exact rules.refuse _ trivial

theorem executeEach {item : Token} {body : Block} (allowed : allowance.each item body)
    (last : Outcome) (values : List Value) (lastKnown : (knowledge world).value last.value)
    (known : Carried.known (knowledge world) values) : rules.Holds world
      (·.executeEach (frame.on ground) item body (last.on ground) (values.map (·.on ground)))
      (·.executeEach frame item body last values) := by
  induction values generalizing last world with
  | nil => exact rules.pure last lastKnown
  | cons value rest ih =>
    obtain ⟨first, restKnown⟩ := List.forall_mem_cons.mp known
    simp only [List.map_cons, Evaluator.executeEach, bind_runEach]
    apply rules.bind (rules.runEach allowed first)
    intro _ isLater completion completes
    cases completion with
    | broke keyword outcome => exact rules.pure outcome completes
    | normal outcome =>
      have stillKnown := Carried.grow (rules.grows isLater) rest restKnown
      exact ih outcome completes stillKnown

theorem executeStatement (world : World) {stmt : Stmt} (fits : allowance.FitsStatement stmt)
    (uses : ∀ keyword path, stmt = .use keyword path →
      rules.Does world fun frame => (·.use frame path)) :
    rules.Does world fun frame => (·.executeStatement frame stmt) := by
  have nothing : ∀ later, (knowledge later).value Outcome.nothing.value :=
    fun later => (knowledge later).plain _ rfl
  have normal : ∀ {world : World} {left right : Evaluator → Action Outcome},
      rules.Holds world left right → rules.Holds world
        (fun evaluator => left evaluator >>= fun outcome => Pure.pure (Completion.normal outcome))
        fun evaluator => right evaluator >>= fun outcome => Pure.pure (Completion.normal outcome) :=
    fun holds => rules.bind holds fun _ _ outcome known =>
      rules.pure (Completion.normal outcome) known
  cases stmt with
  | expression value =>
    unfold Evaluator.executeStatement
    simp only [Allowance.FitsStatement] at fits ⊢
    split at fits
    · rename_i declares
      simp only [declares, if_true]
      exact normal (rules.declare false fits)
    · rename_i evaluates
      simp only [evaluates]
      exact rules.evaluateOutcome fits
  | function keyword name params body => exact normal (rules.declare false fits)
  | group keyword name body => exact normal (rules.declare false fits)
  | exported keyword declaration => exact normal (rules.declare true fits)
  | conditional keyword branches otherwise => exact rules.executeBranches fits
  | loop keyword condition body =>
    exact normal (rules.rounds fun rounds =>
      rules.executeLoop fits.1 fits.2 rounds .nothing (nothing world))
  | each keyword item collection body =>
    apply rules.bind (rules.evaluate fits.1)
    intro _ _ values _
    apply rules.bind (rules.elementsOf item values)
    exact fun later _ elements known =>
      normal (rules.executeEach fits.2 .nothing elements (nothing later) known)
  | leave keyword => exact rules.pure (Completion.broke keyword .nothing) (nothing world)
  | use keyword path =>
    exact rules.bind (uses keyword path rfl) fun later _ _ _ =>
      rules.pure (Completion.normal .nothing) (nothing later)

end Discipline

end ArrowScript

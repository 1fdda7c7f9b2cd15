import ArrowScript.Proofs.Evaluation.Likeness
import ArrowScript.Proofs.Scope.Context
import ArrowScript.Tree.Node
import Mathlib.Logic.Relation

namespace ArrowScript

/-!
# A match is a chain of branches

While a match looks for the arm to run, `@` is its subject in the conditions and
absent in the bodies.  Only an `@` that runs in the scope of the match can tell:
bodies and functions run in scopes of their own, and whatever sets `@` in the
scope of the match puts back what it finds.  So a match whose conditions contain
no `@` does what a chain of branches does behind its subject.
-/

namespace Store

variable {store : Store} {ref owner : Ref .scope} {context : Option Value}

theorem scope_setContext (ref : Ref .scope) :
    (store.setContext owner context).scope ref = store.scope ref ∨
      (store.setContext owner context).scope ref = { store.scope ref with context := context } := by
  by_cases existing : store.HasScope ref
  · by_cases same : ref = owner
    · subst same
      exact .inr (scope_modifyScope_self existing _)
    · exact .inl (scope_modifyScope_other same _)
  · have absent : ¬ (store.setContext owner context).HasScope ref := by
      unfold HasScope setContext
      rwa [size_modifyScope]
    rw [scope_of_not_hasScope absent, scope_of_not_hasScope existing]
    exact .inl rfl

theorem chain_setContext : (store.setContext owner context).chain ref = store.chain ref := by
  apply chain_eq_of_parents
  intro other _
  rcases store.scope_setContext other with same | same <;> rw [same]

theorem names_setContext (kind : NameKind) :
    ((store.setContext owner context).scope ref).names kind = (store.scope ref).names kind := by
  rcases store.scope_setContext ref with same | same <;> rw [same]
  cases kind <;> rfl

theorem setContext_setContext (later : Option Value) :
    (store.setContext ref context).setContext ref later = store.setContext ref later := by
  simp only [setContext, modifyScope]
  congr 1
  apply Array.ext_getElem?
  intro index
  simp only [Array.getElem?_modify]
  split <;> cases store.scopes[index]? <;> rfl

theorem setContext_own : store.setContext ref (store.scope ref).context = store := by
  have unchanged :
      store.scopes.modify ref.index ({ · with context := (store.scope ref).context }) =
        store.scopes := by
    apply Array.ext_getElem?
    intro index
    rw [Array.getElem?_modify]
    split
    · next isOwner =>
        subst isOwner
        unfold scope
        rw [Array.getD_eq_getD_getElem?]
        cases store.scopes[ref.index]? <;> rfl
    · rfl
  exact congrArg (fun scopes => { store with scopes := scopes }) unchanged

end Store

/-- Taking `@` away from a scope. -/
def Touch.absence (ref : Ref .scope) : Touch where
  owner := ref
  change scope := { scope with context := none }
  suits _ := True
  Fits store := store.HasScope ref
  subtle :=
    { retained := fun _ _ => trivial
      parent := fun _ => rfl
      has := fun _ kind _ => by cases kind <;> rfl
      append := fun {_ kind _} _ _ _ => by cases kind <;> rfl }
  hasScope existing := existing
  suited _ := trivial
  grown existing grows := grows.hasScope existing

theorem Touch.absence_blinds (ref reader : Ref .scope) : (absence ref).Blinds reader where
  visible {store} _ kind name := by
    show (store.setContext ref none).visible kind (Scope.names kind) reader name = _
    simp only [Store.visible, Store.find?, Store.chain_setContext, Store.names_setContext]
  member {store} _ kind group name := by
    show (store.setContext ref none).member kind (Scope.names kind) group reader name = _
    simp only [Store.member, Store.isWithin, Store.chain_setContext, Store.names_setContext]
  writes _ _ _ := Store.modifyScope_comm fun _ _ => rfl

namespace Machine

/-- A machine from which `@` is absent in a scope. -/
def without (machine : Machine) (ref : Ref .scope) : Machine :=
  machine.modifyStore (·.setContext ref none)

/-- Machines that differ at most in what `@` is in a scope. -/
structure AlikeBut (ref : Ref .scope) (left right : Machine) : Prop where
  existing : left.store.HasScope ref
  same : right.without ref = left.without ref

variable {machine left right : Machine} {ref other : Ref .scope} {context : Option Value}

theorem without_setContext_self :
    (machine.modifyStore (·.setContext ref context)).without ref = machine.without ref := by
  simp only [without, modifyStore, Store.setContext_setContext]

theorem without_setContext_other (different : other ≠ ref) :
    (machine.modifyStore (·.setContext other context)).without ref =
      (machine.without ref).modifyStore (·.setContext other context) := by
  simp only [without, modifyStore]
  congr 1
  exact Store.modifyScope_comm fun same => (different same.symm).elim

namespace AlikeBut

variable (alike : left.AlikeBut ref right)

include alike

theorem existing_right : right.store.HasScope ref := by
  have sameSize := congrArg (·.store.scopes.size) alike.same
  simp only [without, modifyStore, Store.setContext, Store.size_modifyScope] at sameSize
  exact Nat.lt_of_lt_of_eq alike.existing sameSize.symm

theorem context_eq (different : other ≠ ref) :
    (right.store.scope other).context = (left.store.scope other).context := by
  have unchanged : ∀ machine : Machine, (machine.without ref).store.scope other = _ :=
    fun machine => Store.scope_modifyScope_other different _
  rw [← unchanged, ← unchanged left, alike.same]

theorem setContext (owner : Ref .scope) (context : Option Value) :
    (left.modifyStore (·.setContext owner context)).AlikeBut ref
      (right.modifyStore (·.setContext owner context)) where
  existing := Nat.lt_of_lt_of_eq alike.existing (Store.size_modifyScope _ _ _).symm
  same := by
    by_cases same : owner = ref
    · subst same
      rw [without_setContext_self, without_setContext_self, alike.same]
    · rw [without_setContext_other same, without_setContext_other same, alike.same]

theorem setContext_left (context : Option Value) :
    (left.modifyStore (·.setContext ref context)).AlikeBut ref right where
  existing := (alike.setContext ref context).existing
  same := by rw [without_setContext_self, alike.same]

end AlikeBut

end Machine

open ArrowScript.Action

/-- Ends that differ at most in what `@` is in a scope are the same once it is set there. -/
theorem EndsAlike.mapAfter_setContext {ref : Ref .scope} {start : Machine}
    {left right : EStateM.Result Failure Machine α}
    (ends : EndsAlike (Machine.AlikeBut ref) start left right) (context : Option Value) :
    mapAfter (·.modifyStore (·.setContext ref context)) left =
      mapAfter (·.modifyStore (·.setContext ref context)) right := by
  have same {final other : Machine} (alike : final.AlikeBut ref other) :
      final.modifyStore (·.setContext ref context) =
        other.modifyStore (·.setContext ref context) := by
    have erased (machine : Machine) :
      (machine.without ref).modifyStore (·.setContext ref context) =
        machine.modifyStore (·.setContext ref context) := by
      simp only [Machine.without, Machine.modifyStore, Store.setContext_setContext]
    rw [← erased final, ← erased other, alike.same]
  cases ends with
  | ok _ alike => exact congrArg (EStateM.Result.ok _) (same alike)
  | error _ alike => exact congrArg (EStateM.Result.error _) (same alike)

theorem Action.mapAfter_setContext_own {ref : Ref .scope}
    (ended : EStateM.Result Failure Machine α) :
    mapAfter (·.modifyStore (·.setContext ref ((after ended).store.scope ref).context)) ended =
      ended := by
  cases ended <;> simp only [mapAfter, after, Machine.modifyStore, Store.setContext_own]

/-- Machines are alike whatever `@` is in a scope. -/
def Likeness.unread (ref : Ref .scope) : Likeness (Touch.absence ref) where
  Alike := Machine.AlikeBut ref
  Open scope := scope ≠ ref
  fresh alike := by
    rintro rfl
    exact Nat.lt_irrefl _ alike.existing
  misses {_ action machine other} missed alike := by
    have commutes (each : Machine) (existing : each.store.HasScope ref) :
        action (each.without ref) = mapAfter (·.without ref) (action each) :=
      (missed each).commutes existing
    have same := commutes other alike.existing_right
    rw [alike.same, commutes machine alike.existing] at same
    have grows := (missed machine).grows
    have existing := grows.hasScope alike.existing
    generalize action machine = ended at same grows existing ⊢
    generalize action other = otherEnded at same ⊢
    rcases ended with ⟨value, final⟩ | ⟨failure, final⟩ <;>
      rcases otherEnded with ⟨otherValue, otherFinal⟩ | ⟨otherFailure, otherFinal⟩
    · obtain ⟨rfl, sameMachine⟩ := EStateM.Result.ok.inj same
      exact .ok grows ⟨existing, sameMachine.symm⟩
    · cases same
    · cases same
    · obtain ⟨rfl, sameMachine⟩ := EStateM.Result.error.inj same
      exact .error grows ⟨existing, sameMachine.symm⟩
  setContext owner context alike := alike.setContext owner context
  restore {machine other final otherFinal} owner alike alikeThen := by
    by_cases isOwner : owner = ref
    · subst isOwner
      refine ⟨(alikeThen.setContext owner _).existing, ?_⟩
      rw [Machine.without_setContext_self, Machine.without_setContext_self, alikeThen.same]
    · rw [alike.context_eq isOwner]
      exact alikeThen.setContext owner _

/-- No `@` stands in an expression, however deep. -/
def Expr.IsFree (expr : Expr) : Prop :=
  ∀ token,
    ¬ Relation.ReflTransGen (fun node below : Node => below ∈ node.children) (.expr expr)
      (.expr (.context token))

theorem Expr.IsFree.below {expr part : Expr} (free : expr.IsFree)
    (isPart : .expr part ∈ expr.children) : part.IsFree :=
  fun token leads => free token (.head isPart leads)

/-- Code of a scope where `@` may not be read. -/
def Allowance.unread (isHere : Prop) : Allowance :=
  { anything with
    hands := fun expr => isHere → expr.IsFree
    reads := ¬ isHere }

theorem Allowance.unread_fits {isHere : Prop} {expr : Expr}
    (free : isHere → expr.IsFree) : (unread isHere).Fits expr := by
  have part {part : Expr} (isPart : .expr part ∈ expr.children) :
      (unread isHere).hands part :=
    fun here => (free here).below isPart
  have deeper {part inner : Expr}
      (isPart : .expr part ∈ expr.children) (isInner : .expr inner ∈ part.children) :
      (unread isHere).hands inner :=
    fun here => ((free here).below isPart).below isInner
  cases expr with
  | context token => exact fun here => free here token .refl
  | binary op left right =>
    exact ⟨part (by simp [Expr.children]), part (by simp [Expr.children]), fun _ _ => trivial⟩
  | assign target value =>
    refine ⟨?_, part (by simp [Expr.children])⟩
    cases target with
    | element base pos opening closing =>
      exact ⟨deeper List.mem_cons_self (by simp [Expr.children]),
        deeper List.mem_cons_self (by simp [Expr.children])⟩
    | groupMember group name => exact deeper List.mem_cons_self (by simp [Expr.children])
    | _ => trivial
  | call callee args =>
    refine ⟨?_, fun arg mem => part (by simp [Expr.children, mem])⟩
    cases callee with
    | groupMember group name => exact deeper List.mem_cons_self (by simp [Expr.children])
    | _ => trivial
  | choice keyword subject arms otherwise closing =>
    refine ⟨part List.mem_cons_self, fun arm mem => ⟨part ?_, trivial⟩, fun _ _ => trivial⟩
    refine .tail _ (List.mem_append_left _ (List.mem_flatMap.mpr ⟨arm, mem, ?_⟩))
    exact List.mem_cons_self
  | array opening items closing =>
    exact fun item mem => part (List.mem_map.mpr ⟨item, mem, rfl⟩)
  | object opening items closing =>
    refine fun item mem => part (List.mem_flatMap.mpr ⟨item, mem, ?_⟩)
    cases item <;> simp [ObjectItem.nodes, ObjectItem.expression]
  | element base pos opening closing =>
    exact ⟨part (by simp [Expr.children]), part (by simp [Expr.children])⟩
  | interpolation opening parts closing => exact fun each mem => part (List.mem_map_of_mem mem)
  | unary | grouping | push | groupMember => exact part List.mem_cons_self
  | literal | reference | declaration | block | groupName | functionName => trivial

/-- An evaluator goes on alike whatever `@` is in a scope, unless it evaluates that `@`. -/
structure Evaluator.Overlooks (evaluator : Evaluator) (ref : Ref .scope) : Prop where
  covers : (Likeness.unread ref).Covers evaluator evaluator
  evaluate : ∀ frame expression, (frame.scope = ref → expression.IsFree) →
    (Likeness.unread ref).Runs (evaluator.evaluate frame expression)
      (evaluator.evaluate frame expression)

theorem Allowance.unread_isLax {isHere : Prop} (elsewhere : ¬ isHere) :
    (Allowance.unread isHere).IsLax := by
  constructor <;> simp [Allowance.unread, Allowance.anything, elsewhere]

theorem Evaluator.Overlooks.past {evaluator : Evaluator} {ref : Ref .scope}
    (overlooks : evaluator.Overlooks ref) (frame : Frame) :
    (Likeness.unread ref).Past (.unread (frame.scope = ref)) frame evaluator evaluator where
  blinds := Touch.absence_blinds ref _
  evaluate := overlooks.evaluate frame
  context elsewhere := .inspect fun _ => congrArg Scope.context (Touch.scope_other elsewhere)

theorem evaluator_overlooks (ref : Ref .scope) (depth : Nat) : (evaluator depth).Overlooks ref := by
  induction depth with
  | zero => exact ⟨⟨rfl, fun _ _ _ => .misses (.throw _)⟩, fun _ _ _ => .misses (.throw _)⟩
  | succ depth ih =>
    have covers := ih.covers
    have past := ih.past
    refine ⟨⟨rfl, ?_⟩, ?_⟩
    · intro frame stmt elsewhere
      apply (covers.discipline (past frame)).executeStatement ()
        (Allowance.fitsStatement_of_lax (Allowance.unread_isLax elsewhere) stmt)
      rintro keyword path rfl machine other alike
      exact covers.use frame path machine other alike ((Likeness.unread ref).fresh alike)
    · intro frame expr free
      have fits := Allowance.unread_fits free
      let rules := covers.discipline (past frame)
      have special : rules.Special :=
        { assignKey := rules.assignKey fun _ _ _ _ _ _ =>
            .misses (.detached (.change fun _ _ => rfl))
          assignMember := rules.assignMember fun _ owner name value _ => .misses fun machine =>
            .change (.setVariable machine.store owner name value) fun _ =>
              Store.modifyScope_comm fun _ _ => rfl }
      refine rules.evaluateExpression special () fits ?_
      rintro callee args rfl
      exact rules.evaluateCall (covers.calling (past frame)) () fits

namespace Evaluator

variable {depth : Nat} {frame : Frame} {arms : List Arm} {machine other : Machine}

theorem evaluate_level {expr : Expr} {value : Value}
    (ran : (evaluator depth).evaluate frame expr machine = .ok value other) :
    other.trace.level = machine.trace.level := by
  have level :
      (Action.after ((evaluator depth).evaluate frame expr machine)).trace.level = _ :=
    (evaluator_edits depth ⟨frame, .evaluate expr, machine⟩).level
  rwa [ran] at level

theorem evaluate_hasScope {expr : Expr} {value : Value} {ref : Ref .scope}
    (existing : machine.store.HasScope ref)
    (ran : (evaluator depth).evaluate frame expr machine = .ok value other) :
    other.store.HasScope ref := by
  have size :
      _ ≤ (Action.after ((evaluator depth).evaluate frame expr machine)).store.scopes.size :=
    (evaluator_faithful depth ⟨frame, .evaluate expr, machine⟩).size_le
  rw [ran] at size
  exact Nat.lt_of_lt_of_le existing size

theorem traceCondition_of_level (silent : machine.trace.level = 0) (word : String)
    (condition : Value) : traceCondition word condition machine = .ok () machine := by
  simp [traceCondition, Action.trace, silent]

/-- Arms and branches part only in what `@` is in the scope of the match. -/
theorem executeArms_alike_executeBranches (alike : machine.AlikeBut frame.scope other)
    (silent : machine.trace.level = 0) (free : ∀ arm ∈ arms, arm.condition.IsFree)
    (subject : Value)
    (otherwise : Option Block) : EndsAlike (Machine.AlikeBut frame.scope) machine
      ((evaluator depth).executeArms frame subject otherwise arms machine)
      ((evaluator depth).executeBranches frame otherwise arms other) := by
  have overlooks := evaluator_overlooks frame.scope depth
  have grows (each : Machine) (context : Option Value) :
      each.store.Grows (each.modifyStore (·.setContext frame.scope context)).store :=
    .setContext each.store frame.scope context
  induction arms generalizing machine other with
  | nil =>
    have started := alike.setContext_left none
    refine EndsAlike.since ?_ (grows machine none)
    cases otherwise with
    | none => exact (Likeness.unread frame.scope).misses (.pure _) started
    | some body => exact overlooks.covers.executeBlock frame body _ _ started
  | cons arm rest ih =>
    have isFree := free arm List.mem_cons_self
    have started := alike.setContext_left (some subject)
    refine EndsAlike.since ?_ (grows machine (some subject))
    apply (overlooks.evaluate frame arm.condition (fun _ => isFree) _ _ started).bind
    intro condition middle otherMiddle ran _ alikeThen
    have stillSilent : middle.trace.level = 0 := (evaluate_level ran).trans silent
    have otherSilent : otherMiddle.trace.level = 0 := by
      have sameLevel : otherMiddle.trace.level = _ := congrArg (·.trace.level) alikeThen.same
      rw [sameLevel]
      exact stillSilent
    rw [bind_of_ok (traceCondition_of_level stillSilent _ _),
      bind_of_ok (traceCondition_of_level otherSilent _ _)]
    split
    · refine EndsAlike.since ?_ (grows middle none)
      exact overlooks.covers.executeBlock frame arm.body _ _ (alikeThen.setContext_left none)
    · exact ih alikeThen stillSilent fun arm mem =>
        free arm (List.mem_cons_of_mem _ mem)

/-- Behind its subject a match does what its arms do as branches. -/
theorem keepingContext_executeArms (existing : machine.store.HasScope frame.scope)
    (silent : machine.trace.level = 0) (free : ∀ arm ∈ arms, arm.condition.IsFree)
    (subject : Value)
    (otherwise : Option Block) : Action.keepingContext frame.scope
        ((evaluator depth).executeArms frame subject otherwise arms) machine =
      (evaluator depth).executeBranches frame otherwise arms machine := by
  have ends : EndsAlike (Machine.AlikeBut frame.scope) machine _
      ((evaluator depth).executeBranches frame otherwise arms machine) :=
    executeArms_alike_executeBranches ⟨existing, rfl⟩ silent free subject otherwise
  let branches : Stmt := .conditional default arms otherwise
  have kept :
      ((Action.after ((evaluator depth).executeBranches frame otherwise arms machine)).store.scope
        frame.scope).context = _ :=
    (evaluator_faithful (depth + 1) ⟨frame, .execute branches, machine⟩).context_eq
      existing (.inl rfl)
  rw [keepingContext_eq, ← kept, ends.mapAfter_setContext, mapAfter_setContext_own]

theorem executeMatch_eq (existing : machine.store.HasScope frame.scope)
    (silent : machine.trace.level = 0) (free : ∀ arm ∈ arms, arm.condition.IsFree)
    (subject : Expr)
    (otherwise : Option Block) :
    (evaluator depth).executeMatch frame subject arms otherwise machine =
      ((evaluator depth).evaluate frame subject >>= fun _ =>
        (evaluator depth).executeBranches frame otherwise arms) machine := by
  unfold executeMatch
  cases ran : (evaluator depth).evaluate frame subject machine with
  | error failure final => rw [bind_of_error ran, bind_of_error ran]
  | ok value final =>
    rw [bind_of_ok ran, bind_of_ok ran]
    exact keepingContext_executeArms (evaluate_hasScope existing ran)
      ((evaluate_level ran).trans silent) free value otherwise

end Evaluator

/--
A match whose conditions contain no `@`, as a statement and as an expression,
ends as its subject does when the branches of a conditional statement come
behind it: with the same result, break or error and in the same machine.
-/
theorem match_eq_branches
    {depth : Nat}
    {frame : Frame}
    {machine : Machine}
    {arms : List Arm}
    (existing : machine.store.HasScope frame.scope)
    (silent : machine.trace.level = 0)
    (free : ∀ arm ∈ arms, arm.condition.IsFree)
    (keyword branching closing : Token)
    (subject : Expr)
    (otherwise : Option Block) :
    let chain : Action Completion := do
      let _ ← (evaluator depth).evaluate frame subject
      (evaluator (depth + 1)).execute frame (.conditional branching arms otherwise)
    let choice : Expr := .choice keyword subject arms otherwise closing
    (evaluator (depth + 1)).execute frame (.expression choice) machine = chain machine ∧
      (evaluator (depth + 1)).evaluate frame choice machine =
        (chain >>= Evaluator.outcomeValue) machine := by
  intro chain choice
  have same : (evaluator depth).executeMatch frame subject arms otherwise machine = chain machine :=
    Evaluator.executeMatch_eq existing silent free subject otherwise
  refine ⟨same, ?_⟩
  show EStateM.bind ((evaluator depth).executeMatch frame subject arms otherwise) _ machine =
    EStateM.bind chain _ machine
  unfold EStateM.bind
  rw [same]

/-- A match with an arm that breaks. -/
theorem match_eq_branches_of_break :
    let frame : Frame := ⟨⟨0⟩, 0⟩
    let machine : Machine := { store := { scopes := #[.root] } }
    let subject : Expr := .literal (.text "") default
    let arm : Arm := ⟨.literal (.bool true) default, ⟨default, [.leave default], default⟩⟩
    let chain : Action Completion := do
      let _ ← (evaluator 1).evaluate frame subject
      (evaluator 2).execute frame (.conditional default [arm] none)
    (evaluator 2).execute frame (.expression (.choice default subject [arm] none default)) machine =
        chain machine ∧
      ∃ final, chain machine = .ok (.broke default .nothing) final := by
  intro frame machine subject arm chain
  have free : ∀ each ∈ [arm], each.condition.IsFree := by
    intro each member token leads
    obtain rfl := List.mem_singleton.mp member
    rcases leads.cases_head with same | ⟨below, isPart, -⟩
    · cases same
    · cases isPart
  have existing : machine.store.HasScope frame.scope := Nat.zero_lt_one
  exact ⟨(match_eq_branches existing rfl free default default default subject none).1, _, rfl⟩

end ArrowScript

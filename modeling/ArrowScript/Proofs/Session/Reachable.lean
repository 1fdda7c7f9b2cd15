import ArrowScript.Proofs.Evaluation.Lawful
import ArrowScript.Proofs.Scope.Operation

namespace ArrowScript

/-!
# The machines of a session

A session starts with an empty store.  Programs run in its scopes, and the
program around them works on the scopes with operations of its own.  The
machines of the session are those between two of these steps and, inside a run,
those at which a task starts.
-/

/-- A function whose closure is there. -/
def Function.IsGrounded (store : Store) : Function → Prop
  | .user fn => store.HasScope fn.closure
  | .native _ => True

/-- A name stands for a value, a function whose closure is there or a group that is there. -/
def NameKind.IsGrounded (store : Store) : (kind : NameKind) → kind.Content → Prop
  | .variableName, _ => True
  | .functionName, fn => fn.IsGrounded store
  | .groupName, group => group.index < store.groups.size

/-- An operation on scopes, groups and functions that are there. -/
def Operation.IsGrounded (store : Store) : Operation → Prop
  | .newScope parent => ∀ ref ∈ parent, store.HasScope ref
  | .newGroup group => store.HasScope group.scope
  | .newFunction fn => fn.IsGrounded store
  | .define scope kind _ content _ _ => store.HasScope scope ∧ kind.IsGrounded store content
  | .get scope _ _ _ | .assign scope _ _ _ => store.HasScope scope
  | .member group _ _ reader _ => store.HasScope group ∧ store.HasScope reader
  | .merge scope library _ => store.HasScope scope ∧ store.HasScope library

namespace Session

/--
The machines of sessions with a registry, in which the program around uses
certain operations only.  Everything outside of the store may change between two
steps: a session may run its programs with different traces and files.
-/
inductive ComesUp (uses : Operation → Prop) (registry : Registry) :
    Machine → Prop
  | fresh {machine : Machine} : machine.store = .empty → machine.registry = registry →
      ComesUp uses registry machine
  | operation {machine : Machine} {operation : Operation} :
      ComesUp uses registry machine →
      uses operation →
      operation.IsGrounded machine.store →
      ComesUp uses registry
        { machine with store := (operation.perform registry machine.store).2 }
  | run {machine : Machine} {scope : Ref .scope} (depth : Nat) (text : String) :
      ComesUp uses registry machine → machine.store.HasScope scope →
      ComesUp uses registry (Action.after (run depth scope text machine))
  | during
      {machine : Machine}
      {scope : Ref .scope}
      {depth level : Nat}
      {text : String}
      {visit : Visit} :
      ComesUp uses registry machine → machine.store.HasScope scope →
      Visited depth (·.runSource scope text) machine level visit →
      ComesUp uses registry visit.machine
  | elsewhere {machine other : Machine} : ComesUp uses registry machine →
      other.store = machine.store → other.registry = machine.registry →
        ComesUp uses registry other

variable {law : Law} {machine : Machine}

variable (isLoud : law.IsLoud)

include isLoud

theorem runSource_obeys_loudly (depth : Nat) (scope : Ref .scope) (text : String) :
    ObeysAt law (evaluator depth) (·.runSource scope text) (fun _ _ => True) machine :=
  Evaluator.runSource_obeys (evaluator_governs isLoud depth) (fun _ _ => isLoud.numbered _) scope
    text machine (.refl _)

/-- A run leads to a machine that a law allows. -/
theorem run_allowed (allows : law.Allows machine) (depth : Nat) (scope : Ref .scope)
    (text : String) : law.Allows (Action.after (run depth scope text machine)) := by
  obtain ⟨visits, -, -, ends⟩ := runSource_obeys_loudly isLoud depth scope text allows
  exact ends.allows

theorem visited_admitted {depth level : Nat} {scope : Ref .scope} {text : String} {visit : Visit}
    (allows : law.Allows machine)
    (visited : Visited depth (·.runSource scope text) machine level visit) : law.Admits visit :=
  visited.admitted isLoud (runSource_obeys_loudly isLoud depth scope text) allows

/-- All machines of a session are allowed, if the operations that it uses keep stores allowed. -/
theorem ComesUp.allowed {uses : Operation → Prop} {registry : Registry}
    (known : law.registry registry) (starts : law.functions #[])
    (keeps : ∀ store operation, law.AllowsStore store → uses operation →
      operation.IsGrounded store → law.AllowsStore (operation.perform registry store).2)
    (comesUp : ComesUp uses registry machine) : law.Allows machine := by
  have untraced : ∀ machine : Machine, ∀ files ∈ law.silent, machine.Traces files := by
    simp [isLoud.alone]
  induction comesUp with
  | @fresh machine isEmpty isRegistry =>
    refine ⟨?_, ?_, isLoud.numbered _, untraced machine⟩
    · rw [isEmpty]
      exact .empty starts
    · rwa [isRegistry]
  | @operation machine operation _ isUsed isGrounded ih =>
    exact ih.withStore
      (keeps machine.store operation ih.store isUsed isGrounded)
  | run depth text _ _ ih =>
    exact run_allowed isLoud ih depth _ text
  | during _ _ visited ih =>
    exact (visited_admitted isLoud ih visited).machine
  | @elsewhere machine other _ sameStore sameRegistry ih =>
    refine ⟨?_, ?_, isLoud.numbered _, untraced other⟩
    · rw [sameStore]
      exact ih.store
    · rw [sameRegistry]
      exact ih.registry

end Session

end ArrowScript

import ArrowScript.Proofs.Evaluation.Faithful

namespace ArrowScript

/-!
# The value of `@` is put back

Whatever is evaluated or executed, and however it ends, the value of `@` in
every scope is afterwards what it was before.  So every statement starts with
`@` absent from its scope, in every run that starts that way: a body starts in
a new scope, and between two of its statements nothing is left behind.
-/

theorem Store.context_add {store : Store} {ref owner : Ref .scope} {additions : Additions}
    (existing : store.HasScope ref) :
    ((store.setScope owner ((store.scope owner).add additions)).scope ref).context =
      (store.scope ref).context := by
  by_cases same : ref = owner
  · subst same
    rw [scope_setScope_self existing]
    rfl
  · rw [scope_setScope_other same]

namespace Progress

variable {frame : Frame} {outline : List Element} {isOpen : Bool} {before after : Machine}

/-- Code changes `@` at most in the scope of its frame, and only while `@` is open. -/
theorem context_eq (progress : Progress frame outline isOpen before after) {ref : Ref .scope}
    (existing : before.store.HasScope ref) (untouched : isOpen = false ∨ ref ≠ frame.scope) :
    (after.store.scope ref).context = (before.store.scope ref).context := by
  induction progress with
  | kept scopes sources => rw [Store.scope_of_scopes_eq scopes]
  | trans earlier later first second =>
    have stillThere := Nat.lt_of_lt_of_le existing earlier.size_le
    rw [second stillThere untouched, first existing untouched]
  | context value =>
    rcases untouched with closed | other
    · cases closed
    · rw [Machine.modifyStore, Store.setContext, Store.scope_modifyScope_other other]
  | @restore frame outline isOpen before after progress ih =>
    have stillThere : after.store.HasScope ref :=
      Nat.lt_of_lt_of_le existing progress.size_le
    by_cases same : ref = frame.scope
    · subst same
      rw [Machine.modifyStore, Store.setContext, Store.scope_modifyScope_self stillThere]
    · rw [Machine.modifyStore, Store.setContext, Store.scope_modifyScope_other same]
      exact ih existing (.inr same)
  | @declare frame outline isOpen machine scope declares =>
    obtain ⟨additions, rfl, -⟩ := declares.exists_add
    exact Store.context_add existing
  | @assign frame outline isOpen machine owner name value =>
    by_cases same : ref = owner
    · subst same
      rw [Machine.modifyStore, Store.setVariable, Store.scope_modifyScope_self existing]
    · rw [Machine.modifyStore, Store.setVariable, Store.scope_modifyScope_other same]
  | enter opens _ ih =>
    obtain ⟨scope, gains, -⟩ := opens.exists_gains
    have stillThere := Store.hasScope_of_push gains.scopes existing
    rw [ih stillThere (.inl rfl), Store.scope_of_push gains.scopes existing]
  | @adopt frame inner outline isOpen path text before started after mem loads progress
      ih =>
      have stillThere := Store.hasScope_of_push loads.scopes existing
      obtain ⟨additions, shape, -⟩ :=
        Scope.mergeFrom_eq_add (after.store.scope frame.scope) (after.store.scope inner.scope)
      rw [Machine.adopt, Machine.modifyStore, shape,
        Store.context_add (Nat.lt_of_lt_of_le stillThere progress.size_le),
        ih stillThere (.inl rfl), Store.scope_of_push loads.scopes existing]

end Progress

/-- A scope exists, and `@` is absent from it. -/
def Store.Absent (store : Store) (ref : Ref .scope) : Prop :=
  store.HasScope ref ∧ (store.scope ref).context = none

variable {frame : Frame} {outline : List Element} {visit : Visit}

theorem Progress.absent {before after : Machine} {ref : Ref .scope}
    (progress : Progress frame outline false before after) (absent : before.store.Absent ref) :
    after.store.Absent ref := by
  refine ⟨Nat.lt_of_lt_of_le absent.1 progress.size_le, ?_⟩
  rw [progress.context_eq absent.1 (.inl rfl)]
  exact absent.2

theorem Opens.absent {inner : Frame} {body : Body} {before started : Machine}
    (opens : Opens frame outline before inner body started) : started.store.Absent inner.scope := by
  obtain ⟨scope, gains, isNew, starts⟩ := opens.exists_gains
  rw [isNew]
  refine ⟨Store.hasScope_of_push_new gains.scopes, ?_⟩
  have current : started.store.scope before.nextScope = scope :=
    Store.scope_of_push_new gains.scopes
  rw [current]
  exact starts.context

theorem Executes.absent {body : Body} {start : Machine} (executes : Executes frame body start visit)
    (absent : start.store.Absent frame.scope) : visit.machine.store.Absent visit.frame.scope := by
  cases executes with
  | statement progress mem => exact progress.absent absent

/-- A statement that a task hands over starts with `@` absent, whatever the task is. -/
theorem Enters.absent {start : Machine} {stmt : Stmt}
    (enters : Enters frame outline start visit) (isStatement : visit.task = .execute stmt) :
    visit.machine.store.Absent visit.frame.scope := by
  cases enters with
  | evaluates progress inside => cases isStatement
  | executes progress opens executes => exact executes.absent opens.absent

theorem Visited.absent {depth level : Nat} {code : Evaluator → Action α}
    {machine : Machine} {stmt : Stmt} (visited : Visited depth code machine level visit)
    (isStatement : visit.task = .execute stmt)
    (own : ∀ visit, Calls (evaluator depth) code machine visit →
      visit.machine.store.Absent visit.frame.scope) :
    visit.machine.store.Absent visit.frame.scope := by
  cases visited with
  | first calls => exact own visit calls
  | next outer calls => exact calls.step_enters.absent isStatement

/--
Whatever is evaluated or executed, in whatever frame and however it ends, it
leaves the value of `@` in every scope as it found it.  In a run of a program
or of a text that starts with `@` absent, every statement of every body starts
with `@` absent from its scope.
-/
theorem context_restored :
    (∀ depth frame task machine ref,
      machine.store.HasScope ref →
      ((Action.after ((evaluator depth).perform frame task machine)).store.scope ref).context =
        (machine.store.scope ref).context) ∧
      ∀ depth machine level visit statement,
        visit.task = .execute statement →
        (∀ frame statements,
          machine.store.HasScope frame.scope →
          (machine.store.scope frame.scope).context = none →
          Visited depth (·.interpret frame statements) machine level visit →
          (visit.machine.store.scope visit.frame.scope).context = none) ∧
        ∀ scope text,
          machine.store.HasScope scope →
          (machine.store.scope scope).context = none →
          Visited depth (·.runSource scope text) machine level visit →
          (visit.machine.store.scope visit.frame.scope).context = none := by
  refine ⟨?_, ?_⟩
  · intro depth frame task machine ref existing
    exact (evaluator_faithful depth ⟨frame, task, machine⟩).context_eq existing (.inl rfl)
  intro depth machine level visit statement isStatement
  refine ⟨?_, ?_⟩
  · intro frame statements existing isAbsent visited
    have own : ∀ visit, Calls (evaluator depth) (·.interpret frame statements) machine visit →
        visit.machine.store.Absent visit.frame.scope := by
      intro visit calls
      have executes : Executes frame (.ofProgram statements) machine visit :=
        ((Evaluator.interpret_keeps (evaluator_steady depth) statements machine).enters calls).1
      exact executes.absent ⟨existing, isAbsent⟩
    exact (visited.absent isStatement own).2
  · intro scope text existing isAbsent visited
    have own : ∀ visit, Calls (evaluator depth) (·.runSource scope text) machine visit →
        visit.machine.store.Absent visit.frame.scope := by
      intro visit calls
      have executes : Executes ⟨scope, machine.sources⟩ (.ofText text) machine visit :=
        ((Evaluator.runSource_keeps (evaluator_steady depth) scope text machine).enters calls).1
      exact executes.absent ⟨existing, isAbsent⟩
    exact (visited.absent isStatement own).2

/-- A `break` in a block of a program starts with `@` absent from the scope of the block. -/
theorem context_restored_in_block :
    let leave : Stmt := .leave default
    let block : Stmt := .expression (.block ⟨default, [leave], default⟩)
    let outer : Frame := ⟨⟨0⟩, 0⟩
    let inner : Frame := ⟨⟨1⟩, 0⟩
    let machine : Machine := { store := { scopes := #[.root] } }
    let started : Machine := { store := { scopes := #[.root, .child ⟨0⟩] } }
    machine.store.HasScope outer.scope ∧
      (machine.store.scope outer.scope).context = none ∧
      Visited 1 (·.interpret outer [block]) machine 0 ⟨inner, .execute leave, started⟩ ∧
      (started.store.scope inner.scope).context = none := by
  intro leave block outer inner machine started
  have existing : machine.store.HasScope outer.scope :=
    Nat.zero_lt_one
  have program :=
    calls_interpret (evaluator 1) outer block [] (show machine.trace.level = 0 from rfl)
  have visited : Visited 1 (·.interpret outer [block]) machine 0
      ⟨inner, .execute leave, started⟩ :=
    .next (.first program) (calls_block (evaluator 0) outer default default leave [] rfl)
  refine ⟨existing, rfl, visited, ?_⟩
  exact ((context_restored.2 1 machine 0 _ leave rfl).1 outer [block] existing rfl visited)

end ArrowScript

import ArrowScript.Proofs.Evaluation.Faithful

namespace ArrowScript

/-!
# Scopes only grow, and only where code runs

Code adds entries to the scope of its frame, and to no other scope that is
already there.  It removes no entry, and of an entry it changes at most the
value of a variable.  What it adds is declared or imported by the code itself,
not by a body inside it: every body starts in a scope of its own.
-/

/-- What of an entry is never changed, whatever becomes of its value. -/
def Entry.traits (entry : Entry α) : Bool × Bool × Option Site :=
  (entry.isPublic, entry.isForeign, entry.declared)

/-- Names with what is never changed of their entries. -/
def Namespace.shape (names : Namespace α) : List (String × Bool × Bool × Option Site) :=
  names.map fun item => (item.1, item.2.traits)

namespace Namespace

variable {α : Type}

theorem shape_append (first second : Namespace α) :
    shape (first ++ second) = shape first ++ shape second :=
  List.map_append

theorem shape_assign (names : Namespace α) (name : String) (value : α) :
    (names.assign name value).shape = names.shape := by
  unfold shape assign
  rw [List.map_map]
  apply List.map_congr_left
  intro item _
  by_cases assigned : (item.1 == name) = true
  · simp only [Function.comp_apply, assigned, ↓reduceIte]
    rfl
  · simp only [Function.comp_apply, assigned, Bool.false_eq_true, ↓reduceIte]

/-- Every entry of a namespace has its like in a namespace of the same shape. -/
theorem exists_of_shape_eq {first second : Namespace α} {item : String × Entry α}
    (same : second.shape = first.shape) (mem : item ∈ second) :
    ∃ like ∈ first, like.1 = item.1 ∧ like.2.traits = item.2.traits := by
  have inShape : (item.1, item.2.traits) ∈ first.shape := by
    rw [← same]
    exact List.mem_map_of_mem mem
  obtain ⟨like, isMember, equal⟩ := List.mem_map.mp inShape
  exact ⟨like, isMember, (Prod.mk.inj equal).1, (Prod.mk.inj equal).2⟩

end Namespace

/-- Two states of a scope that differ at most in `@` and in values of variables. -/
structure Scope.Alike (before after : Scope) : Prop where
  parent : after.parent = before.parent
  bindings : after.bindings.shape = before.bindings.shape
  functions : after.functions = before.functions
  groups : after.groups = before.groups

/-- First some entries, then others. -/
def Additions.append (first second : Additions) : Additions where
  bindings := first.bindings ++ second.bindings
  functions := first.functions ++ second.functions
  groups := first.groups ++ second.groups

namespace Scope

variable {first second third : Scope}

theorem Alike.refl (scope : Scope) : scope.Alike scope :=
  ⟨rfl, rfl, rfl, rfl⟩

theorem Alike.of_eq (same : second = first) : first.Alike second := by
  rw [same]
  exact .refl first

theorem Alike.trans (earlier : first.Alike second) (later : second.Alike third) :
    first.Alike third where
  parent := later.parent.trans earlier.parent
  bindings := later.bindings.trans earlier.bindings
  functions := later.functions.trans earlier.functions
  groups := later.groups.trans earlier.groups

theorem Alike.add (alike : first.Alike second) (additions : Additions) :
    (first.add additions).Alike (second.add additions) where
  parent := alike.parent
  bindings := by
    show Namespace.shape (_ ++ _) = Namespace.shape (_ ++ _)
    rw [Namespace.shape_append, Namespace.shape_append, alike.bindings]
  functions := by
    show second.functions ++ _ = first.functions ++ _
    rw [alike.functions]
  groups := by
    show second.groups ++ _ = first.groups ++ _
    rw [alike.groups]

theorem add_nothing (scope : Scope) : scope.add {} = scope := by
  simp [add]

theorem add_add (scope : Scope) (earlier later : Additions) :
    (scope.add earlier).add later = scope.add (earlier.append later) := by
  simp [add, Additions.append]

end Scope

theorem Additions.Introduced.nothing (frame : Frame) (outline : List Element) :
    Additions.Introduced {} frame outline :=
  ⟨by simp, by simp, by simp⟩

variable {frame : Frame} {outline : List Element} {before : Machine} {visit : Visit}
  {ref : Ref .scope}

theorem Additions.Introduced.append {first second : Additions}
    (earlier : first.Introduced frame outline) (later : second.Introduced frame outline) :
    (first.append second).Introduced frame outline where
  bindings item mem := by
    rcases List.mem_append.mp mem with isFirst | isSecond
    · exact earlier.bindings item isFirst
    · exact later.bindings item isSecond
  functions item mem := by
    rcases List.mem_append.mp mem with isFirst | isSecond
    · exact earlier.functions item isFirst
    · exact later.functions item isSecond
  groups item mem := by
    rcases List.mem_append.mp mem with isFirst | isSecond
    · exact earlier.groups item isFirst
    · exact later.groups item isSecond

theorem Entry.IsImported.mono {fewer more : List Element} {entry : Entry α}
    (imported : entry.IsImported fewer) (inside : fewer ⊆ more) : entry.IsImported more := by
  obtain ⟨isForeign, path, used⟩ := imported
  exact ⟨isForeign, path, inside used⟩

theorem Additions.Introduced.mono {fewer more : List Element} {additions : Additions}
    (introduced : additions.Introduced frame fewer) (inside : fewer ⊆ more) :
    additions.Introduced frame more where
  bindings item mem := by
    rcases introduced.bindings item mem with imported | ⟨name, declared, rest⟩
    · exact .inl (imported.mono inside)
    · exact .inr ⟨name, inside declared, rest⟩
  functions item mem := by
    rcases introduced.functions item mem with
      imported | ⟨name, params, block, declared, rest⟩
    · exact .inl (imported.mono inside)
    · exact .inr ⟨name, params, block, inside declared, rest⟩
  groups item mem := by
    rcases introduced.groups item mem with imported | ⟨name, declared, rest⟩
    · exact .inl (imported.mono inside)
    · exact .inr ⟨name, inside declared, rest⟩

/-- What code with an outline may make of the scopes of a store while it runs in a frame. -/
structure Store.Extends (frame : Frame) (outline : List Element) (before after : Store) : Prop where
  size : before.scopes.size ≤ after.scopes.size
  /-- No other scope gains, loses or redefines an entry. -/
  elsewhere : ∀ ref, before.HasScope ref → ref ≠ frame.scope →
    (before.scope ref).Alike (after.scope ref)
  /-- The scope of the frame keeps its entries and gains those that the code introduces. -/
  own : before.HasScope frame.scope → ∃ additions : Additions,
    ((before.scope frame.scope).add additions).Alike (after.scope frame.scope) ∧
      additions.Introduced frame outline

namespace Store.Extends

variable {frame inner : Frame} {outline other : List Element} {before middle after : Store}

theorem of_alike (size : before.scopes.size ≤ after.scopes.size)
    (alike : ∀ ref, before.HasScope ref → (before.scope ref).Alike (after.scope ref)) :
    Extends frame outline before after where
  size := size
  elsewhere ref existing _ := alike ref existing
  own existing := by
    refine ⟨{}, ?_, .nothing frame outline⟩
    rw [Scope.add_nothing]
    exact alike frame.scope existing

theorem refl (store : Store) : Extends frame outline store store :=
  of_alike (Nat.le_refl _) fun ref _ => .refl (store.scope ref)

theorem hasScope (extended : Extends frame outline before after)
    (existing : before.HasScope ref) : after.HasScope ref :=
  Nat.lt_of_lt_of_le existing extended.size

theorem trans (earlier : Extends frame outline before middle)
    (later : Extends frame outline middle after) : Extends frame outline before after where
  size := Nat.le_trans earlier.size later.size
  elsewhere ref existing different :=
    (earlier.elsewhere ref existing different).trans
      (later.elsewhere ref (earlier.hasScope existing) different)
  own existing := by
    obtain ⟨first, firstAlike, firstIntroduced⟩ := earlier.own existing
    obtain ⟨second, secondAlike, secondIntroduced⟩ := later.own (earlier.hasScope existing)
    refine ⟨first.append second, ?_, firstIntroduced.append secondIntroduced⟩
    rw [← Scope.add_add]
    exact (firstAlike.add second).trans secondAlike

theorem mono {more : List Element} (extended : Extends frame outline before after)
    (inside : outline ⊆ more) : Extends frame more before after where
  size := extended.size
  elsewhere := extended.elsewhere
  own existing := by
    obtain ⟨additions, alike, introduced⟩ := extended.own existing
    exact ⟨additions, alike, introduced.mono inside⟩

/-- What runs in a scope that was not there before adds nothing to those that were. -/
theorem then_elsewhere
    (earlier : Extends frame outline before middle) (later : Extends inner other middle after)
    (isNew : ¬ before.HasScope inner.scope) :
    Extends frame outline before after := by
  have kept : ∀ ref, before.HasScope ref → (middle.scope ref).Alike (after.scope ref) := by
    intro ref existing
    apply later.elsewhere ref (earlier.hasScope existing)
    rintro rfl
    exact isNew existing
  refine ⟨Nat.le_trans earlier.size later.size, ?_, ?_⟩
  · intro ref existing different
    exact (earlier.elsewhere ref existing different).trans (kept ref existing)
  · intro existing
    obtain ⟨additions, alike, introduced⟩ := earlier.own existing
    exact ⟨additions, alike.trans (kept frame.scope existing), introduced⟩

end Store.Extends

namespace Store

theorem alike_setContext (store : Store) (owner : Ref .scope) (value : Option Value)
    (existing : store.HasScope ref) :
    (store.scope ref).Alike ((store.setContext owner value).scope ref) := by
  unfold setContext
  by_cases same : ref = owner
  · subst same
    rw [scope_modifyScope_self existing]
    exact ⟨rfl, rfl, rfl, rfl⟩
  · rw [scope_modifyScope_other same]
    exact .refl _

theorem alike_setVariable (store : Store) (owner : Ref .scope) (name : String) (value : Value)
    (existing : store.HasScope ref) :
    (store.scope ref).Alike ((store.setVariable owner name value).scope ref) := by
  unfold setVariable
  by_cases same : ref = owner
  · subst same
    rw [scope_modifyScope_self existing]
    exact ⟨rfl, Namespace.shape_assign _ name value, rfl, rfl⟩
  · rw [scope_modifyScope_other same]
    exact .refl _

namespace Extends

variable {frame : Frame} {outline : List Element}

theorem setContext (store : Store) (owner : Ref .scope) (value : Option Value) :
    Extends frame outline store (store.setContext owner value) := by
  apply of_alike (Nat.le_of_eq (store.size_modifyScope owner _).symm)
  exact fun ref existing => store.alike_setContext owner value existing

theorem setVariable (store : Store) (owner : Ref .scope) (name : String) (value : Value) :
    Extends frame outline store (store.setVariable owner name value) := by
  apply of_alike (Nat.le_of_eq (store.size_modifyScope owner _).symm)
  exact fun ref existing => store.alike_setVariable owner name value existing

theorem add (store : Store) {additions : Additions}
    (introduced : additions.Introduced frame outline) : Extends frame outline store
      (store.setScope frame.scope ((store.scope frame.scope).add additions)) where
  size := Nat.le_of_eq (store.size_setScope frame.scope _).symm
  elsewhere ref _ different := by
    rw [scope_setScope_other different]
    exact .refl _
  own existing := by
    refine ⟨additions, ?_, introduced⟩
    rw [scope_setScope_self existing]
    exact .refl _

end Extends

end Store

theorem Opens.extends {inner : Frame} {body : Body} {started : Machine}
    (opens : Opens frame outline before inner body started) :
    Store.Extends frame outline before.store started.store := by
  obtain ⟨scope, gains, -⟩ := opens.exists_gains
  apply Store.Extends.of_alike opens.size_le
  intro ref existing
  exact .of_eq (Store.scope_of_push gains.scopes existing)

/-- The scope of a body was not there before the body started. -/
theorem Opens.isNew {inner : Frame} {body : Body} {started : Machine}
    (opens : Opens frame outline before inner body started) :
    ¬ before.store.HasScope inner.scope := by
  obtain ⟨scope, -, isNext, -⟩ := opens.exists_gains
  rw [isNext]
  exact Nat.lt_irrefl _

/-- Code extends the scope of its frame and leaves the others alike. -/
theorem Progress.extends {isOpen : Bool} {after : Machine}
    (progress : Progress frame outline isOpen before after) :
    Store.Extends frame outline before.store after.store := by
  induction progress with
  | kept scopes sources =>
    apply Store.Extends.of_alike (Nat.le_of_eq (by rw [scopes]))
    exact fun ref _ => .of_eq (Store.scope_of_scopes_eq scopes ref)
  | trans _ _ first second => exact first.trans second
  | context value => exact .setContext _ _ value
  | restore _ ih => exact ih.trans (.setContext _ _ _)
  | declare declares =>
    obtain ⟨additions, rfl, introduced, -⟩ := declares.exists_add
    exact .add _ introduced
  | assign owner name value => exact .setVariable _ owner name value
  | enter opens _ ih =>
    exact opens.extends.then_elsewhere ih opens.isNew
  | @adopt frame inner outline isOpen path text before started after mem loads _
      ih =>
      have opens : Opens frame outline before inner (.ofText text) started := .load loads
      have ran := opens.extends.then_elsewhere ih opens.isNew
      obtain ⟨additions, shape, imported⟩ :=
        Scope.mergeFrom_eq_add (after.store.scope frame.scope) (after.store.scope inner.scope)
      have merged := Store.Extends.add after.store (imported.introduced frame mem)
      rw [← shape] at merged
      exact ran.trans merged

/-- A visit comes while code with an outline runs in a frame. -/
structure Visit.Inside (frame : Frame) (outline : List Element) (start : Machine)
    (visit : Visit) : Prop where
  reached : Store.Extends frame outline start.store visit.machine.store
  /-- What is visited runs directly in the frame, or in a scope that was not there before. -/
  place : (visit.frame = frame ∧ visit.task.outline ⊆ outline) ∨
    ¬ start.store.HasScope visit.frame.scope

namespace Visit.Inside

variable {frame : Frame} {outline : List Element} {start : Machine} {outer inner : Visit}

/-- Whatever a visited task makes of the scopes extends those of the start. -/
theorem extends_trans {after : Store} (inside : outer.Inside frame outline start)
    (extended : Store.Extends outer.frame outer.task.outline outer.machine.store after) :
    Store.Extends frame outline start.store after := by
  rcases inside.place with ⟨same, smaller⟩ | isNew
  · exact inside.reached.trans (same ▸ extended.mono smaller)
  · exact inside.reached.then_elsewhere extended isNew

theorem trans (inside : outer.Inside frame outline start)
    (deeper : inner.Inside outer.frame outer.task.outline outer.machine) :
    inner.Inside frame outline start where
  reached := inside.extends_trans deeper.reached
  place := by
    rcases deeper.place with ⟨same, smaller⟩ | isNew
    · rw [same]
      rcases inside.place with ⟨sameOuter, smallerOuter⟩ | isNew
      · exact .inl ⟨sameOuter, List.Subset.trans smaller smallerOuter⟩
      · exact .inr isNew
    · exact .inr fun existing => isNew (inside.reached.hasScope existing)

end Visit.Inside

theorem Enters.inside {start : Machine} (enters : Enters frame outline start visit) :
    visit.Inside frame outline start := by
  cases enters with
  | evaluates progress smaller => exact ⟨progress.extends, .inl ⟨rfl, smaller⟩⟩
  | executes progress opens executes =>
    have isNew : ¬ start.store.HasScope _ :=
      fun existing => opens.isNew (progress.extends.hasScope existing)
    cases executes with
    | statement later mem =>
      have opened := progress.extends.trans opens.extends
      exact ⟨opened.then_elsewhere later.extends isNew, .inr isNew⟩

theorem Calls.eq_of_perform {evaluator : Evaluator} {task : Task} {machine : Machine}
    (calls : Calls evaluator (·.perform frame task) machine visit) :
    visit = ⟨frame, task, machine⟩ := by
  obtain ⟨other, -, agrees, differs⟩ := calls
  by_cases same : visit = ⟨frame, task, machine⟩
  · exact same
  · exact (differs (agrees ⟨frame, task, machine⟩ (Ne.symm same))).elim

theorem Visited.inside {depth level : Nat} {task : Task} {machine : Machine}
    (visited : Visited depth (·.perform frame task) machine level visit) :
    visit.Inside frame task.outline machine := by
  induction visited with
  | first calls =>
    rw [calls.eq_of_perform]
    exact ⟨.refl machine.store, .inl ⟨rfl, List.Subset.refl _⟩⟩
  | next _ calls ih => exact ih.trans calls.step_enters.inside

/--
Evaluating or executing anything adds entries at most to the scope where it
runs, however it ends; so does everything that it has done when a task nested
in it starts and when that task ends.  What it adds is declared or imported by
code that stands directly in it.  No entry is removed, no scope gets another
parent, and of an entry at most the value of a variable changes.  A nested task
runs directly in the same scope, or in one that was not there before.
-/
theorem only_own_scope_extended (depth : Nat) (frame : Frame) (task : Task) (machine : Machine) :
    Store.Extends frame task.outline machine.store
        (Action.after ((evaluator depth).perform frame task machine)).store ∧
      ∀ level visit,
        Visited depth (·.perform frame task) machine level visit →
        visit.Inside frame task.outline machine ∧
          Store.Extends frame task.outline machine.store
            (Action.after ((evaluator level).answer visit)).store := by
  refine ⟨(evaluator_faithful depth ⟨frame, task, machine⟩).extends, ?_⟩
  intro level visit visited
  have inside := visited.inside
  exact ⟨inside, inside.extends_trans (evaluator_faithful level visit).extends⟩

/-- A declaration in a block adds a variable to the block's scope that was not there before. -/
theorem only_own_scope_extended_in_block :
    let name : Token := { (default : Token) with lexeme := "x" }
    let declaration : Stmt := .expression (.declaration default name)
    let block : Stmt := .expression (.block ⟨default, [declaration], default⟩)
    let outer : Frame := ⟨⟨0⟩, 0⟩
    let inner : Frame := ⟨⟨1⟩, 0⟩
    let machine : Machine := { store := { scopes := #[.root] } }
    let started : Machine := { store := { scopes := #[.root, .child ⟨0⟩] } }
    let visit : Visit := ⟨inner, .execute declaration, started⟩
    let final : Machine := Action.after ((evaluator 1).answer visit)
    Visited 2 (·.perform outer (.execute block)) machine 1 visit ∧
      (final.store.scope inner.scope).bindings.has "x" = true ∧
      visit.Inside outer block.outline machine ∧
      Store.Extends outer block.outline machine.store final.store := by
  intro name declaration block outer inner machine started visit final
  have blockVisited :=
    Visited.first (calls_perform (evaluator 2) outer (.execute block) machine)
  have visited : Visited 2 (·.perform outer (.execute block)) machine 1 visit :=
    .next blockVisited (calls_block (evaluator 1) outer default default declaration [] rfl)
  refine ⟨visited, by decide, ?_⟩
  exact (only_own_scope_extended 2 outer (.execute block) machine).2 1 visit visited

end ArrowScript

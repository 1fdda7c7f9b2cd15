import Mathlib.Data.List.Forall2
import ArrowScript.Proofs.Session.Importing

namespace ArrowScript

/-!
# The shape of objects

The shape of an object is the sequence of its keys.  An object gets its shape
when its literal has been evaluated, and keeps it: whatever a program does from
then on, at most values are replaced.
-/

/-- The same key, as scripts tell keys apart. -/
def Value.IsSameKey (left right : Value) : Prop :=
  left = right ∨ left.same right = true

namespace Value.IsSameKey

variable {first second third : Value}

theorem symm (same : first.IsSameKey second) : second.IsSameKey first :=
  same.imp Eq.symm fun isSame => by rwa [same_comm]

theorem trans (earlier : first.IsSameKey second) (later : second.IsSameKey third) :
    first.IsSameKey third := by
  rcases earlier with rfl | isSame
  · exact later
  rcases later with rfl | isSameLater
  · exact .inr isSame
  · exact .inr (same_trans isSame isSameLater)

end Value.IsSameKey

/-- Objects with the same keys in the same order. -/
def Object.SameShape (object other : Object) : Prop :=
  List.Forall₂ (fun item counterpart => item.key.IsSameKey counterpart.key) object other

namespace Object.SameShape

variable {first second third object : Object} {key value : Value}

theorem refl (object : Object) : object.SameShape object :=
  List.forall₂_same.mpr fun _ _ => .inl rfl

theorem symm (same : first.SameShape second) : second.SameShape first :=
  List.Forall₂.flip (List.Forall₂.imp (fun _ _ isSame => isSame.symm) same)

theorem trans (earlier : first.SameShape second) (later : second.SameShape third) :
    first.SameShape third := by
  unfold SameShape at *
  induction earlier generalizing third with
  | nil => exact later
  | cons isSame _ ih =>
    cases later with
    | cons isSameLater rest => exact .cons (isSame.trans isSameLater) (ih rest)

theorem set (has : object.contains key = true) : object.SameShape (object.set key value) := by
  induction object with
  | nil => simp [contains] at has
  | cons item rest ih =>
    by_cases isKey : item.key.same key
    · rw [Object.set, Value.label_same_label, if_pos isKey]
      exact .cons (.inr isKey) (refl rest)
    · have later : contains rest key = true := by simpa [contains, isKey] using has
      rw [Object.set, Value.label_same_label, if_neg isKey]
      exact .cons (.inl rfl) (ih later)

end Object.SameShape

theorem Store.size_lt_newObject (store : Store) (entries : Object) :
    store.objects.size < (store.newObject entries).2.objects.size := by
  simp only [newObject, Array.size_push, Nat.lt_succ_self]

/-- An object that is there stays there and keeps its shape. -/
theorem Store.Edits.sameShape {before after : Store} {ref : Ref .object}
    (edits : before.Edits after) (existing : ref.index < before.objects.size) :
    ref.index < after.objects.size ∧ (before.object ref).SameShape (after.object ref) := by
  induction edits with
  | refl | newArray | modifyArray | newGroup | withScopes => exact ⟨existing, .refl _⟩
  | trans _ _ first second =>
    obtain ⟨isThere, earlier⟩ := first existing
    obtain ⟨isThereLater, later⟩ := second isThere
    exact ⟨isThereLater, earlier.trans later⟩
  | newObject store entries =>
    rw [object_newObject existing]
    exact ⟨Nat.lt_trans existing (store.size_lt_newObject entries), .refl _⟩
  | @setKey store changed key value has =>
    refine ⟨existing.trans_eq Array.size_modify.symm, ?_⟩
    by_cases isChanged : ref = changed
    · subst isChanged
      rw [object_setKey_self existing]
      exact .set has
    · rw [object_setKey_other isChanged]
      exact .refl _

/-- The stores of a run: at its start, where its tasks start and end, and at its end. -/
inductive Moment {α : Type} (depth : Nat) (code : Evaluator → Action α) (machine : Machine) :
    Store → Prop
  | starts : Moment depth code machine machine.store
  | enters {level : Nat} {visit : Visit} : Visited depth code machine level visit →
      Moment depth code machine visit.machine.store
  | leaves {level : Nat} {visit : Visit} : Visited depth code machine level visit →
      Moment depth code machine (Action.after ((evaluator level).answer visit)).store
  | ends : Moment depth code machine (Action.after (code (evaluator depth) machine)).store

/-- Behind a task that another one hands over, the other one only edits the store. -/
theorem Calls.leaves {level : Nat} {outer inner : Visit}
    (calls : Calls (evaluator level) (·.step outer.frame outer.task) outer.machine inner) :
    (Action.after ((evaluator level).answer inner)).store.Edits
      (Action.after ((evaluator level).step outer.frame outer.task outer.machine)).store :=
  (Evaluator.step_keeps (evaluator_steady level) outer.frame outer.task outer.machine).leaves calls

/-- From every moment of a run on, the store is only edited. -/
theorem Moment.edits {depth : Nat} {scope : Ref .scope} {text : String} {machine : Machine}
    {store : Store} (moment : Moment depth (·.runSource scope text) machine store) :
    store.Edits (Action.after ((evaluator depth).runSource scope text machine)).store := by
  have keeps := Evaluator.runSource_keeps (evaluator_steady depth) scope text machine
  have left : ∀ {level visit}, Visited depth (·.runSource scope text) machine level visit →
      (Action.after ((evaluator level).answer visit)).store.Edits
        (Action.after ((evaluator depth).runSource scope text machine)).store := by
    intro level visit visited
    induction visited with
    | first calls => exact keeps.leaves calls
    | next _ calls ih =>
      unfold Evaluator.answer at ih
      rw [evaluator_succ_perform] at ih
      exact calls.leaves.trans ih
  cases moment with
  | starts => exact keeps.edits.store
  | enters visited => exact (evaluator_edits _ _).store.trans (left visited)
  | leaves visited => exact left visited
  | ends => exact .refl _

/-- An action that leaves an object as it is. -/
def Action.Spares (ref : Ref .object) (action : Action α) : Prop :=
  ∀ machine : Machine,
    ref.index < machine.store.objects.size →
    ref.index < (after (action machine)).store.objects.size ∧
      (after (action machine)).store.object ref = machine.store.object ref

namespace Action.Spares

variable {α β : Type} {ref : Ref .object} {action : Action α} {next : α → Action β}

theorem of_store_eq (same : ∀ machine, (after (action machine)).store = machine.store) :
    action.Spares ref := by
  intro machine existing
  rw [same]
  exact ⟨existing, rfl⟩

theorem bind (spares : action.Spares ref) (nextSpares : ∀ value, (next value).Spares ref) :
    (action >>= next).Spares ref := by
  intro machine existing
  obtain ⟨isThere, kept⟩ := spares machine existing
  cases outcome : action machine with
  | ok value middle =>
    rw [outcome] at isThere kept
    rw [bind_of_ok outcome]
    exact (nextSpares value middle isThere).imp id (·.trans kept)
  | error failure middle =>
    rw [outcome] at isThere kept
    rw [bind_of_error outcome]
    exact ⟨isThere, kept⟩

end Action.Spares

namespace Evaluator

variable {frame : Frame} {items : List ObjectItem}

theorem evaluateEntries_spares {inner : Evaluator} {ref : Ref .object}
    (spares : ∀ item ∈ items, (inner.evaluate frame item.expression).Spares ref)
    (entries : Object) : (inner.evaluateEntries frame entries items).Spares ref := by
  induction items generalizing entries with
  | nil => exact .of_store_eq fun _ => rfl
  | cons item rest ih =>
    obtain ⟨first, later⟩ := List.forall_mem_cons.mp spares
    cases item with
    | entry key token expr =>
      apply first.bind
      intro value
      simp only
      split
      · exact .of_store_eq fun _ => rfl
      · exact ih later _
    | spread expr =>
      apply first.bind
      intro value
      split
      · apply Action.Spares.bind (.of_store_eq fun _ => rfl)
        exact fun spread => ih later _
      · exact .of_store_eq fun _ => rfl

theorem literal_spares {level : Nat} {ref : Ref .object} (opening closing : Token)
    (spares : ∀ item ∈ items, ((evaluator level).evaluate frame item.expression).Spares ref) :
    ((evaluator (level + 1)).evaluate frame (.object opening items closing)).Spares ref := by
  apply (evaluateEntries_spares spares []).bind
  intro object machine existing
  exact ⟨Nat.lt_trans existing (Store.size_lt_newObject _ object),
    Store.object_newObject existing object⟩

theorem literal_eq_ok {level : Nat} {opening closing : Token} {value : Value}
    {start final : Machine}
    (ran : (evaluator (level + 1)).evaluate frame (.object opening items closing) start =
      .ok value final) :
    ∃ ref : Ref .object, value = .object ref ∧ start.store.objects.size ≤ ref.index ∧
      ref.index < final.store.objects.size := by
  obtain ⟨object, middle, evaluated, made⟩ := Action.bind_eq_ok.mp ran
  cases made
  let outline := (Expr.object opening items closing).outline
  let rules := keeping (evaluator_steady level) frame outline
  have fits : (Allowance.ofOutline outline).Fits (.object opening items closing) :=
    fits_of_outline (List.Subset.refl _)
  have keeps : rules.Holds false _ (·.evaluateEntries frame [] items) :=
    rules.evaluateEntries [] (by simp [Carried.known]) fits
  have edits := (keeps start).edits.store
  rw [evaluated] at edits
  have grown : start.store.objects.size ≤ middle.store.objects.size :=
    le_of_forall_lt fun index existing => (@Store.Edits.sameShape _ _ ⟨index⟩ edits existing).1
  exact ⟨_, rfl, grown, Store.size_lt_newObject _ object⟩

end Evaluator

/--
Objects keep their shape.  At any two moments of a run at which an object is
there it has the same keys in the same order, and it is still there when the run
ends.  An object literal gives an object that was not there before, and it leaves
each other object as the expressions leave it that stand in the literal, whatever
the literal spreads.
-/
theorem objects_keep_their_shape
    (depth : Nat)
    (scope : Ref .scope)
    (text : String)
    (machine : Machine) :
    (∀ (ref : Ref .object) (first second : Store),
      Moment depth (·.runSource scope text) machine first →
      Moment depth (·.runSource scope text) machine second →
      ref.index < first.objects.size →
      ref.index < second.objects.size →
      (first.object ref).SameShape (second.object ref) ∧
        ref.index <
          (Action.after ((evaluator depth).runSource scope text machine)).store.objects.size) ∧
      (∀ level frame opening items closing value (start final : Machine),
        (evaluator (level + 1)).evaluate frame (.object opening items closing) start =
          .ok value final →
        ∃ ref : Ref .object,
          value = .object ref ∧
            start.store.objects.size ≤ ref.index ∧
            ref.index < final.store.objects.size) ∧
      ∀ level frame opening items closing (ref : Ref .object),
        (∀ item ∈ items, ((evaluator level).evaluate frame item.expression).Spares ref) →
        ((evaluator (level + 1)).evaluate frame (.object opening items closing)).Spares ref := by
  refine ⟨?_, ?_, ?_⟩
  · intro ref first second firstMoment secondMoment isThere isThereToo
    obtain ⟨staysThere, firstShape⟩ := firstMoment.edits.sameShape isThere
    obtain ⟨-, secondShape⟩ := secondMoment.edits.sameShape isThereToo
    exact ⟨firstShape.trans secondShape.symm, staysThere⟩
  · exact fun _ _ _ _ _ _ _ _ ran => Evaluator.literal_eq_ok ran
  · exact fun _ _ opening _ closing _ spares => Evaluator.literal_spares opening closing spares

/-- An object whose value is replaced and that is then spread. -/
theorem objects_keep_their_shape_when_replaced_and_spread :
    let start : Machine :=
      { store :=
          { objects := #[[⟨.text "a", .number 1⟩]]
            scopes :=
              #[{ parent := none
                  bindings := [("x", { value := .object ⟨0⟩, isPublic := false })] }] } }
    let text := "2 -> x[\"a\"]\n(..x, b: 3) -> var y"
    let final := (Action.after ((evaluator 9).runSource ⟨0⟩ text start)).store
    final.objects =
        #[[⟨.text "a", .number 2⟩],
          [⟨.text "a", .number 2⟩, ⟨.text "b", .number 3⟩]] ∧
      (start.store.object ⟨0⟩).SameShape (final.object ⟨0⟩) := by
  intro start text final
  have objects : final.objects =
      #[[⟨.text "a", .number 2⟩],
        [⟨.text "a", .number 2⟩, ⟨.text "b", .number 3⟩]] := by
    decide +kernel
  refine ⟨objects, ?_⟩
  have kept := (objects_keep_their_shape 9 ⟨0⟩ text start).1
    ⟨0⟩ start.store final .starts .ends
  exact (kept (by decide) (by rw [objects]; decide)).1

end ArrowScript

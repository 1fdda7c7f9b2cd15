import ArrowScript.Proofs.Native.Quiet

namespace ArrowScript

/-!
# What running code does to a store

`Store.Edits` lists everything that code does to a store.  Arrays may be made
and changed in every way, objects only made; of an object that is there at most
the value of a key that it has is replaced.  What happens to scopes is listed
elsewhere.

Nothing takes a key away from an object.
-/

theorem Number.same_comm (left right : Float) :
    Number.same left right = Number.same right left := by
  simp only [Number.same, Bool.and_comm (!isNaN left), eq_comm, Bool.beq_eq_decide_eq]

theorem Number.same_trans {first second third : Float} (earlier : Number.same first second = true)
    (later : Number.same second third = true) : Number.same first third = true := by
  simp only [Number.same, Bool.and_eq_true, beq_iff_eq] at earlier later ⊢
  exact ⟨⟨earlier.1.1, later.1.2⟩, earlier.2.trans later.2⟩

theorem Value.same_comm (left right : Value) : left.same right = right.same left := by
  cases left <;> cases right <;> simp only [same, Number.same_comm, Bool.beq_comm]

theorem Value.same_trans {first second third : Value} (earlier : first.same second = true)
    (later : second.same third = true) : first.same third = true := by
  cases first <;> cases second <;> cases third <;> simp_all [same]
  exact Number.same_trans earlier later

/-- Values that are the same as one value are the same as all others alike. -/
theorem Value.same_congr {first second : Value} (same : first.same second = true) (other : Value) :
    first.same other = second.same other := by
  rw [Bool.eq_iff_iff]
  constructor
  · intro likeFirst
    rw [same_comm] at same
    exact same_trans same likeFirst
  · exact same_trans same

theorem Object.contains_set (object : Object) (key value other : Value) :
    (Object.set key value object).contains other = (key.same other || object.contains other) := by
  induction object with
  | nil => simp [Object.set, contains]
  | cons item rest ih =>
    simp only [Object.set, Value.label_same_label]
    split
    · rename_i isKey
      simp [contains, Value.same_congr isKey other]
    · simp only [contains, Value.label_same_label, List.any_cons] at ih ⊢
      rw [ih, Bool.or_left_comm]

namespace Store

theorem items_modifyArray_self {store : Store} {ref : Ref .array}
    {change : Array Value → Array Value} (existing : ref.index < store.arrays.size) :
    (store.modifyArray ref change).items ref = change (store.items ref) := by
  simp [Store.items, Store.modifyArray, Array.getElem_modify_self, existing]

variable {store : Store} {ref other : Ref .object}

theorem lt_of_contains {key : Value} (has : (store.object ref).contains key = true) :
    ref.index < store.objects.size := by
  apply Classical.byContradiction
  intro absent
  simp [Store.object, Object.contains, absent] at has

theorem object_newObject (existing : ref.index < store.objects.size) (entries : Object) :
    (store.newObject entries).2.object ref = store.object ref := by
  have notLast : ref.index ≠ store.objects.size :=
    Nat.ne_of_lt existing
  simp only [Store.object, Store.newObject, Array.getD_eq_getD_getElem?]
  rw [Array.getElem?_push, if_neg notLast]

theorem object_setKey_self (existing : ref.index < store.objects.size) (key value : Value) :
    (store.setKey ref key value).object ref = Object.set key value (store.object ref) := by
  simp only [Store.object, Store.setKey, Array.getD_eq_getD_getElem?]
  rw [Array.getElem?_modify, if_pos rfl, Array.getElem?_eq_getElem existing]
  rfl

theorem object_setKey_other (different : other ≠ ref) (key value : Value) :
    (store.setKey ref key value).object other = store.object other := by
  have indexes : ref.index ≠ other.index := by
    intro same
    cases ref
    cases other
    cases same
    exact different rfl
  simp only [Store.object, Store.setKey, Array.getD_eq_getD_getElem?]
  rw [Array.getElem?_modify, if_neg indexes]

/-- What code can do to a store, one change after another. -/
inductive Edits : Store → Store → Prop
  | refl (store : Store) : Edits store store
  | trans {first second third : Store} : Edits first second → Edits second third →
    Edits first third
  | newArray (store : Store) (items : Array Value) : Edits store (store.newArray items).2
  | modifyArray (store : Store) (ref : Ref .array) (change : Array Value → Array Value) :
      Edits store (store.modifyArray ref change)
  | newObject (store : Store) (entries : Object) : Edits store (store.newObject entries).2
  | setKey {store : Store} {ref : Ref .object} {key : Value} (value : Value) :
      (store.object ref).contains key = true → Edits store (store.setKey ref key value)
  | newGroup (store : Store) (group : Group) : Edits store (store.newGroup group).2
  | withScopes (store : Store) (scopes : Array Scope) : Edits store (store.withScopes scopes)

namespace Edits

variable {before after : Store}

theorem newScope (store : Store) (scope : Scope) : store.Edits (store.newScope scope).2 :=
  .withScopes store (store.scopes.push scope)

theorem setScope (store : Store) (ref : Ref .scope) (scope : Scope) :
    store.Edits (store.setScope ref scope) :=
  .withScopes store (store.scopes.setIfInBounds ref.index scope)

theorem modifyScope (store : Store) (ref : Ref .scope) (change : Scope → Scope) :
    store.Edits (store.modifyScope ref change) :=
  .withScopes store (store.scopes.modify ref.index change)

theorem setContext (store : Store) (ref : Ref .scope) (context : Option Value) :
    store.Edits (store.setContext ref context) :=
  modifyScope store ref _

theorem contains (edits : before.Edits after) {key : Value}
    (has : (before.object ref).contains key = true) : (after.object ref).contains key = true := by
  induction edits with
  | refl => exact has
  | trans _ _ first second => exact second (first has)
  | newArray | modifyArray | newGroup | withScopes => exact has
  | newObject store entries => rwa [object_newObject (lt_of_contains has)]
  | @setKey store changed other value _ =>
    by_cases isChanged : ref = changed
    · subst isChanged
      rw [object_setKey_self (lt_of_contains has), Object.contains_set, has, Bool.or_true]
    · rwa [object_setKey_other isChanged]

end Edits

end Store

/-- What code can do to a machine while the imports that go on stay the same. -/
structure Machine.Edits (before after : Machine) : Prop where
  store : before.store.Edits after.store
  importing : after.importing = before.importing
  level : after.trace.level = before.trace.level
  sources : before.sources ≤ after.sources

namespace Machine.Edits

theorem refl (machine : Machine) : machine.Edits machine :=
  ⟨.refl machine.store, rfl, rfl, Nat.le_refl _⟩

theorem trans {first second third : Machine} (earlier : first.Edits second)
    (later : second.Edits third) : first.Edits third :=
  ⟨earlier.store.trans later.store, later.importing.trans earlier.importing,
    later.level.trans earlier.level, Nat.le_trans earlier.sources later.sources⟩

theorem modifyStore {machine : Machine} {change : Store → Store}
    (edits : machine.store.Edits (change machine.store)) :
    machine.Edits (machine.modifyStore change) :=
  ⟨edits, rfl, rfl, Nat.le_refl _⟩

theorem setContext (machine : Machine) (ref : Ref .scope) (context : Option Value) :
    machine.Edits (machine.modifyStore (·.setContext ref context)) :=
  .modifyStore (.setContext machine.store ref context)

end Machine.Edits

end ArrowScript

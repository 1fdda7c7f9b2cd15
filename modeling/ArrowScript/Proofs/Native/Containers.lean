import ArrowScript.Proofs.Native.Deeds
import ArrowScript.Proofs.Number.Whole

namespace ArrowScript

/-!
# What natives do to arrays and objects

Only two natives change what is there: one puts an item into an array and one
takes an item out of it, and they take each other back.  Both check their
arguments first, so that a call that raises an error has changed nothing.
Everything else that a native puts into the store is a new array.
-/

open ArrowScript.Action

/-- The objects and the arrays of a store are as they were; there may be new arrays. -/
structure Store.Spares (before after : Store) : Prop where
  arrays : before.arrays.toList <+: after.arrays.toList
  objects : after.objects = before.objects

namespace Store

theorem Spares.refl (store : Store) : store.Spares store :=
  ⟨List.prefix_rfl, rfl⟩

theorem Spares.trans {first second third : Store} (earlier : first.Spares second)
    (later : second.Spares third) : first.Spares third :=
  ⟨earlier.arrays.trans later.arrays, later.objects.trans earlier.objects⟩

theorem Spares.newArray (store : Store) (items : Array Value) :
    store.Spares (store.newArray items).2 :=
  ⟨by simp [Store.newArray], rfl⟩

/-- A change of the items of an array puts something in their place. -/
theorem modifyArray_eq_const (store : Store) (ref : Ref .array)
    (change : Array Value → Array Value) :
    store.modifyArray ref change = store.modifyArray ref fun _ => change (store.items ref) := by
  unfold modifyArray
  congr 1
  apply Array.ext_getElem?
  intro index
  rw [Array.getElem?_modify, Array.getElem?_modify]
  split
  · rename_i same
    subst same
    cases found : store.arrays[ref.index]? with
    | none => rfl
    | some items => simp [Store.items, Array.getD_eq_getD_getElem?, found]
  · rfl

/-- Putting the items back that an array had undoes a change of the array. -/
theorem modifyArray_restore (store : Store) (ref : Ref .array)
    (change : Array Value → Array Value) :
    (store.modifyArray ref change).modifyArray ref (fun _ => store.items ref) = store := by
  unfold modifyArray
  congr 1
  apply Array.ext_getElem?
  intro index
  rw [Array.getElem?_modify, Array.getElem?_modify]
  split
  · rename_i same
    subst same
    cases found : store.arrays[ref.index]? with
    | none => rfl
    | some items => simp [Store.items, Array.getD_eq_getD_getElem?, found]
  · rfl

end Store

namespace Native

/-- However an action ends, it leaves the arrays and the objects as they were. -/
def Sparing (action : Action α) : Prop :=
  ∀ machine : Machine, machine.store.Spares (after (action machine)).store

namespace Sparing

variable {α β : Type}

theorem of_store {action : Action α}
    (same : ∀ machine, (after (action machine)).store = machine.store) : Sparing action := by
  intro machine
  rw [same machine]
  exact .refl machine.store

theorem bind {action : Action α} {next : α → Action β} (sparing : Sparing action)
    (nextSparing : ∀ value, Sparing (next value)) : Sparing (action >>= next) := by
  intro machine
  have spared := sparing machine
  cases ran : action machine with
  | ok value middle =>
    rw [ran] at spared
    rw [bind_of_ok ran]
    exact spared.trans (nextSparing value middle)
  | error failure middle =>
    rw [ran] at spared
    rw [bind_of_error ran]
    exact spared

theorem newArray (items : Array Value) : Sparing (newArray items) :=
  fun machine => .newArray machine.store items

/-- To spare what is there is a manner, of natives that change no array. -/
def manner : Manner ⟨.empty, 0⟩ .nothing where
  Holds _ _ action := Sparing action
  usesFiles := True
  changesArrays := False
  fails _ := True
  pure _ _ := .of_store fun _ => rfl
  bind holds next := holds.bind next
  refuse _ := .of_store fun _ => rfl
  throw _ := .of_store fun _ => rfl
  size _ := .of_store fun _ => rfl
  text _ := .of_store fun _ => rfl
  newArray _ := .newArray _
  changeItems _ _ _ changes := changes.elim
  inspectFiles _ _ := .of_store fun _ => rfl
  changeFiles _ _ := .of_store fun _ => rfl
  writeLine _ := .of_store fun _ => rfl
  write _ := .of_store fun _ => rfl
  memory := .of_store fun _ => rfl
  time := .of_store fun _ => rfl
  read := .of_store fun _ => rfl

end Sparing

theorem runHost_sparing (fn : HostFunction) (args : List Value) : Sparing (runHost fn args) := by
  unfold runHost
  split
  · exact fun machine =>
      settle_keeps (fun later items spares => spares.trans (.newArray later items)) (.refl _) _
  · exact .of_store fun _ => rfl

variable {native : Native}

/-- Every native but two spares what is there. -/
theorem call_sparing (changesNothing : native.changesArrays = false)
    (args : List Value) : Sparing (native.call args) :=
  Sparing.manner.call native (fun _ _ => trivial) (fun _ => trivial)
    (fun changes => by simp [changesNothing] at changes) (fun _ _ _ => trivial)
    fun fn _ => runHost_sparing fn args

/-- What the natives that change an array have in common: the checks in front of the change. -/
def changeAt (native : Native) (misses : Nat → Int → Prop)
    [∀ size index, Decidable (misses size index)] (change : Nat → Array Value → Array Value)
    (args : List Value) : Action Value := do
  let ref ← arrayArgument native args 0 "array"
  let index ← indexArgument native args
  let size ← Action.inspect fun store => (store.items ref).size
  if misses size index then
    refuse (.indexOutOfRange index)
  Action.change (·.modifyArray ref (change index.toNat))
  return .null

theorem indexArgument_cases (native : Native) (arguments : List Value) :
    (∃ index place, argument arguments 1 = .number index ∧ Number.place? index = some place ∧
      indexArgument native arguments = pure (place : Int)) ∨
    ((∃ fault, indexArgument native arguments = refuse fault) ∧
      ∀ index, argument arguments 1 = .number index → Number.place? index = none) := by
  unfold indexArgument numberArgument
  cases argument arguments 1 with
  | number index =>
    simp only [pure_bind]
    cases placed : Number.place? index with
    | some place =>
      obtain ⟨nonnegative, truncated⟩ := Number.place?_eq_some_iff.mp placed
      exact .inl ⟨index, place, rfl, placed, by simp [nonnegative, integerPart, truncated]⟩
    | none =>
      refine .inr ⟨?_, by rintro _ ⟨⟩; exact placed⟩
      cases negative : Number.isNegative index with
      | true => exact ⟨.negativeIndex, rfl⟩
      | false =>
        cases truncated : Number.truncate index with
        | ok whole =>
          obtain ⟨place, rfl⟩ :=
            Int.eq_ofNat_of_zero_le (Number.truncate_nonneg negative truncated)
          rw [Number.place?_eq_some_iff.mpr ⟨negative, truncated⟩] at placed
          cases placed
        | error reason => exact ⟨.notFinite reason, by simp [integerPart, truncated]⟩
  | _ => exact .inr ⟨⟨_, rfl⟩, by simp⟩

/-- A change of an array is made where the place is inside; otherwise nothing is. -/
theorem changeAt_cases (native : Native) (misses : Nat → Int → Prop)
    [∀ size index, Decidable (misses size index)] (change : Nat → Array Value → Array Value)
    (arguments : List Value) (machine : Machine) :
    (∃ ref index place, argument arguments 0 = .array ref ∧
      argument arguments 1 = .number index ∧
      Number.place? index = some place ∧ ¬ misses (machine.store.items ref).size place ∧
      changeAt native misses change arguments machine =
        .ok .null (machine.modifyStore (·.modifyArray ref (change place)))) ∨
    ((∃ failure, changeAt native misses change arguments machine = .error failure machine) ∧
      ∀ ref index place, argument arguments 0 = .array ref →
        argument arguments 1 = .number index →
        Number.place? index = some place → misses (machine.store.items ref).size place) := by
  unfold changeAt arrayArgument
  cases argument arguments 0 with
  | array ref =>
    have looked :
        Action.inspect (fun store => (store.items ref).size) machine =
          .ok (machine.store.items ref).size machine := rfl
    simp only [pure_bind]
    rcases indexArgument_cases native arguments with
      ⟨index, place, isIndex, placed, accepted⟩ | ⟨⟨fault, refused⟩, unplaced⟩
    · simp only [accepted, pure_bind]
      rw [bind_of_ok looked]
      by_cases outside : misses (machine.store.items ref).size place
      · rw [if_pos outside]
        refine .inr ⟨⟨_, rfl⟩, ?_⟩
        rintro _ other otherPlace ⟨⟩ isOther otherPlaced
        rw [isIndex] at isOther
        cases isOther
        rw [placed] at otherPlaced
        cases otherPlaced
        exact outside
      · rw [if_neg outside]
        exact .inl ⟨ref, index, place, rfl, isIndex, placed, outside, rfl⟩
    · rw [refused]
      refine .inr ⟨⟨_, rfl⟩, ?_⟩
      rintro _ index place ⟨⟩ isIndex placed
      rw [unplaced index isIndex] at placed
      cases placed
  | _ => exact .inr ⟨⟨_, rfl⟩, by simp⟩

/-- A call that changes an array, the array, and the items it has behind the call. -/
inductive Edits (store : Store) : Native → List Value → Ref .array → List Value → Prop
  | insert
      (ref : Ref .array)
      (index : Float)
      (value : Value)
      (place : Nat)
      (placed : Number.place? index = some place)
      (inside : place ≤ (store.items ref).size) :
      Edits store .insert [.array ref, .number index, value] ref
        ((store.items ref).toList.take place ++ value :: (store.items ref).toList.drop place)
  | removeAt
      (ref : Ref .array)
      (index : Float)
      (place : Nat)
      (placed : Number.place? index = some place)
      (inside : place < (store.items ref).size) :
      Edits store .removeAt [.array ref, .number index] ref
        ((store.items ref).toList.take place ++ (store.items ref).toList.drop (place + 1))

variable {place : Nat}

theorem insertIdx_eq_split {items : List Value} (value : Value) (inside : place ≤ items.length) :
    items.insertIdx place value = items.take place ++ value :: items.drop place := by
  induction items generalizing place with
  | nil =>
    obtain rfl : place = 0 := Nat.le_zero.mp inside
    rfl
  | cons item rest ih =>
    cases place with
    | zero => rfl
    | succ place =>
      rw [List.insertIdx_succ_cons, ih (Nat.le_of_succ_le_succ inside)]
      rfl

theorem insertAt_eq {items : Array Value} (value : Value)
    (inside : place ≤ items.size) : insertAt place value items =
      (items.toList.take place ++ value :: items.toList.drop place).toArray := by
  apply Array.toList_inj.mp
  rw [insertAt, Array.insertIdxIfInBounds, dif_pos inside, Array.toList_insertIdx,
    insertIdx_eq_split value inside]

theorem eraseAt_eq {items : Array Value} (inside : place < items.size) :
    items.eraseIdxIfInBounds place =
      (items.toList.take place ++ items.toList.drop (place + 1)).toArray := by
  apply Array.toList_inj.mp
  rw [Array.eraseIdxIfInBounds, dif_pos inside, Array.toList_eraseIdx,
    List.eraseIdx_eq_take_drop_succ]

theorem runInsert_eq (args : List Value) :
    runInsert args = changeAt .insert (fun size index => (size : Int) < index)
      (fun index => insertAt index (argument args 2)) args :=
  rfl

theorem runRemoveAt_eq (args : List Value) :
    runRemoveAt args = changeAt .removeAt (fun size index => (size : Int) ≤ index)
      (fun index items => items.eraseIdxIfInBounds index) args :=
  rfl

variable {ref : Ref .array} {machine : Machine}

theorem changeAt_of_inside {misses : Nat → Int → Prop}
    [∀ size index, Decidable (misses size index)] {change : Nat → Array Value → Array Value}
    {arguments : List Value} {index : Float}
    (isArray : argument arguments 0 = .array ref) (isIndex : argument arguments 1 = .number index)
    (placed : Number.place? index = some place)
    (inside : ¬ misses (machine.store.items ref).size place) :
    changeAt native misses change arguments machine = .ok .null
        (machine.modifyStore
          (·.modifyArray ref fun _ => change place (machine.store.items ref))) := by
  rcases changeAt_cases native misses change arguments machine with
    ⟨otherRef, otherIndex, otherPlace, isOther, isOtherIndex, otherPlaced, -, ran⟩ |
      ⟨-, misplaced⟩
  · cases isArray.symm.trans isOther
    cases isIndex.symm.trans isOtherIndex
    cases placed.symm.trans otherPlaced
    rw [ran, Machine.modifyStore, Store.modifyArray_eq_const]
    rfl
  · exact (inside (misplaced ref index place isArray isIndex placed)).elim

/-- A call that changes an array puts the items there that `Edits` names. -/
theorem call_of_edits {args items : List Value}
    (edits : Edits machine.store native args ref items) :
    native.call args machine =
      .ok .null (machine.modifyStore (·.modifyArray ref fun _ => items.toArray)) := by
  cases edits with
  | insert ref index value place placed inside =>
    rw [← insertAt_eq value inside]
    change runInsert _ machine = _
    rw [runInsert_eq]
    exact changeAt_of_inside rfl rfl placed (by omega)
  | removeAt ref index place placed inside =>
    rw [← eraseAt_eq inside]
    change runRemoveAt _ machine = _
    rw [runRemoveAt_eq]
    exact changeAt_of_inside rfl rfl placed (by omega)

/-- A call of a native that could change an array and does not raises an error. -/
theorem call_of_not_edits {arguments : List Value}
    (changes : native.changesArrays = true) (rightLength : arguments.length = native.arity)
    (noEdits : ¬ ∃ ref items, Edits machine.store native arguments ref items) :
    ∃ failure, native.call arguments machine = .error failure machine := by
  cases native with
  | insert =>
    obtain ⟨array, index, value, rfl⟩ := List.length_eq_three.mp rightLength
    rcases changeAt_cases .insert (fun size index => (size : Int) < index)
      (fun index => insertAt index value) [array, index, value] machine with
      ⟨ref, index, place, rfl, rfl, placed, inside, -⟩ | ⟨refused, -⟩
    · exact (noEdits ⟨ref, _, .insert ref index value place placed (by omega)⟩).elim
    · exact refused
  | removeAt =>
    obtain ⟨array, index, rfl⟩ := List.length_eq_two.mp rightLength
    rcases changeAt_cases .removeAt (fun size index => (size : Int) ≤ index)
      (fun index items => items.eraseIdxIfInBounds index) [array, index] machine with
      ⟨ref, index, place, rfl, rfl, placed, inside, -⟩ | ⟨refused, -⟩
    · exact (noEdits ⟨ref, _, .removeAt ref index place placed (by omega)⟩).elim
    · exact refused
  | _ => cases changes

theorem Edits.removeAt_of_insert {store : Store} {index : Float}
    (existing : ref.index < store.arrays.size) (value : Value)
    (placed : Number.place? index = some place) (inside : place ≤ (store.items ref).size) : Edits
      (store.modifyArray ref fun _ =>
        ((store.items ref).toList.take place ++ value ::
          (store.items ref).toList.drop place).toArray)
      .removeAt [.array ref, .number index] ref (store.items ref).toList := by
  rw [← insertIdx_eq_split value inside]
  generalize changed :
    (store.modifyArray ref fun _ =>
      ((store.items ref).toList.insertIdx place value).toArray) = longer
  have held : longer.items ref = ((store.items ref).toList.insertIdx place value).toArray :=
    changed ▸ Store.items_modifyArray_self existing
  have room : place < (longer.items ref).size := by
    rw [held, List.size_toArray, List.length_insertIdx_of_le_length inside]
    exact Nat.lt_succ_of_le inside
  have removal := Edits.removeAt ref index place placed room
  rwa [held, ← List.eraseIdx_eq_take_drop_succ, List.eraseIdx_insertIdx_self] at removal

/-- Taking out what was put in gives back the array as it was. -/
theorem removeAt_insert {final : Machine} {index : Float}
    {value result : Value} (existing : ref.index < machine.store.arrays.size)
    (inserted : Native.insert.call [.array ref, .number index, value] machine = .ok result final) :
    Native.removeAt.call [.array ref, .number index] final = .ok .null machine := by
  by_cases edits :
      ∃ other items, Edits machine.store .insert [.array ref, .number index, value] other items
  swap
  · obtain ⟨failure, failed⟩ := call_of_not_edits rfl rfl edits
    rw [failed] at inserted
    cases inserted
  obtain ⟨other, items, edits⟩ := edits
  rw [call_of_edits edits] at inserted
  cases inserted
  cases edits with
  | insert ref index value place placed inside =>
    refine (call_of_edits (.removeAt_of_insert existing value placed inside)).trans ?_
    have restored := machine.store.modifyArray_restore ref fun _ =>
      ((machine.store.items ref).toList.take place ++
        value :: (machine.store.items ref).toList.drop place).toArray
    exact congrArg (fun store => EStateM.Result.ok _ { machine with store := store }) restored

/--
A call changes an array exactly if it is an insertion or a removal at a place
that the array has.  Every other call, whether it gives a value or raises an
error, leaves all arrays and objects as they were, and a call of the two natives
for insertion and removal then raises an error.  Removing what was inserted
gives back the machine as it was.
-/
theorem calls_spare_containers
    (native : Native)
    (arguments : List Value)
    (rightLength : arguments.length = native.arity)
    (machine : Machine) :
    (∀ ref items,
      Edits machine.store native arguments ref items →
      native.call arguments machine =
        .ok .null (machine.modifyStore (·.modifyArray ref fun _ => items.toArray))) ∧
    ((¬ ∃ ref items, Edits machine.store native arguments ref items) →
      machine.store.Spares (after (native.call arguments machine)).store ∧
      (native = .insert ∨ native = .removeAt →
        ∃ failure, native.call arguments machine = .error failure machine)) ∧
    (∀ ref index value result final,
      ref.index < machine.store.arrays.size →
      Native.insert.call [.array ref, .number index, value] machine = .ok result final →
      Native.removeAt.call [.array ref, .number index] final = .ok .null machine) := by
  refine ⟨fun ref items edits => call_of_edits edits, fun noEdits => ⟨?_, ?_⟩, ?_⟩
  · cases changes : native.changesArrays with
    | false => exact call_sparing changes arguments machine
    | true =>
      obtain ⟨failure, failed⟩ := call_of_not_edits changes rightLength noEdits
      rw [failed]
      exact .refl machine.store
  · rintro (rfl | rfl)
    · exact call_of_not_edits rfl rightLength noEdits
    · exact call_of_not_edits rfl rightLength noEdits
  · intro ref index value result final existing inserted
    exact removeAt_insert existing inserted

/-- An array is put into itself, behind the item that it has, and is taken out again. -/
theorem array_inserted_into_itself :
    let machine : Machine := { store := { arrays := #[#[.null]] } }
    let final : Machine := { store := { arrays := #[#[.null, .array ⟨0⟩]] } }
    let arguments : List Value := [.array ⟨0⟩, .number (Number.ofInt 1), .array ⟨0⟩]
    arguments.length = Native.insert.arity ∧
      Native.insert.call arguments machine = .ok .null final ∧
      Native.removeAt.call [.array ⟨0⟩, .number (Number.ofInt 1)] final =
        .ok .null machine := by
  intro machine final arguments
  have placed : Number.place? (Number.ofInt 1) = some 1 := by
    rw [Number.place?_eq_some_iff]
    decide
  have spares := calls_spare_containers .insert arguments rfl machine
  have inserted : Native.insert.call arguments machine = .ok .null final :=
    spares.1 ⟨0⟩ [.null, .array ⟨0⟩] (.insert ⟨0⟩ _ _ 1 placed (by decide))
  exact ⟨rfl, inserted, spares.2.2 _ _ _ _ _ (by decide) inserted⟩

end Native

end ArrowScript

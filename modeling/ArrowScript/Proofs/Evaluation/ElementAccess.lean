import ArrowScript.Proofs.Evaluation.Faithful
import ArrowScript.Proofs.Number.Whole

namespace ArrowScript

/-!
# Access to elements

Evaluating an index or a value may change the container that is accessed.  What
counts is the container at the moment of the access: an element is read right
behind the evaluation of the index, and it is replaced right behind the
evaluation of the value.  Nothing else is ever written.
-/

/-- An index stands for a whole number: it is a number of exactly this value. -/
def Value.StandsFor (index : Value) (whole : Int) : Prop :=
  ∃ x, index = .number x ∧ Number.value? x = some (whole : ℚ)

/-- A container has an element at an index, at the moment of a store. -/
def Store.HasElement (store : Store) (container index element : Value) : Prop :=
  match container with
  | .array ref => ∃ place : Nat, index.StandsFor place ∧
    (store.items ref)[place]? = some element
  | .text text =>
    ∃ place : Nat,
      index.StandsFor place ∧ (text.toList[place]?).map Value.ofCharacter = some element
  | .object ref => index ≠ .null ∧ (store.object ref).get? index = some element
  | _ => False

namespace Operator

variable {index : Value} {length : Nat}

theorem index_eq_ok_iff {whole : Int} :
    Operator.index index = .ok whole ↔ index.StandsFor whole := by
  cases index with
  | number x =>
    have isNumber : (Value.number x).StandsFor whole ↔ Number.whole? x = some whole := by
      simp [Value.StandsFor, Number.whole?_eq_some_iff]
    rw [isNumber]
    simp only [Operator.index, number]
    by_cases isNaN : Number.isNaN x
    · have decoded : Number.decode x = .nan := by simpa [Number.isNaN] using isNaN
      simp [isNaN, Number.whole?, decoded, bind, Except.bind]
    · cases found : Number.whole? x <;> simp [isNaN, bind, Except.bind, found]
  | _ => simp [Operator.index, number, Value.StandsFor, bind, Except.bind]

/-- The place in a sequence that an index stands for. -/
def place (index : Value) (length : Nat) : Except Fault Nat :=
  Operator.index index >>= fun whole => bounded whole length

theorem place_eq_ok_iff {found : Nat} :
    place index length = .ok found ↔ index.StandsFor found ∧ found < length := by
  rw [← index_eq_ok_iff]
  unfold place bounded
  cases Operator.index index with
  | error fault => simp [bind, Except.bind]
  | ok whole =>
    simp only [bind, Except.bind, Except.ok.injEq]
    split
    · simp only [Except.ok.injEq]
      omega
    · simp only [reduceCtorEq, false_iff]
      omega

theorem map_place_eq_ok_iff {element : Value} {sequence : Nat → Option Value}
    (within : ∀ place, (sequence place).isSome ↔ place < length) :
    ((place index length).map fun found => (sequence found).getD .null) = .ok element ↔
      ∃ place : Nat, index.StandsFor place ∧ sequence place = some element := by
  constructor
  · cases placed : place index length with
    | error fault => simp [Except.map]
    | ok found =>
      obtain ⟨stands, inside⟩ := place_eq_ok_iff.mp placed
      obtain ⟨item, there⟩ := Option.isSome_iff_exists.mp ((within found).mpr inside)
      intro isElement
      refine ⟨found, stands, ?_⟩
      simpa [Except.map, there] using isElement
  · rintro ⟨found, stands, there⟩
    have inside : found < length := (within found).mp (by simp [there])
    rw [place_eq_ok_iff.mpr ⟨stands, inside⟩]
    simp [Except.map, there]

end Operator

namespace Object

variable {object : Object} {key value : Value}

theorem contains_eq_isSome (object : Object) (key : Value) :
    object.contains key = (object.get? key).isSome := by
  rw [contains, get?, Option.isSome_map, List.isSome_find?]

theorem set_of_contains (has : object.contains key = true) :
    ∃ front known rest, object = front ++ known :: rest ∧ known.key.same key = true ∧
      object.get? key = some known.value ∧
      object.set key value = front ++ ⟨key, value⟩ :: rest := by
  induction object with
  | nil => simp [contains] at has
  | cons item rest ih =>
    by_cases isKey : item.key.same key
    · exact ⟨[], item, rest, rfl, isKey, by simp [get?, isKey], by simp [set, isKey]⟩
    · have later : contains rest key = true := by simpa [contains, isKey] using has
      obtain ⟨front, known, back, rfl, same, value, written⟩ := ih later
      refine ⟨item :: front, known, back, rfl, same, ?_, ?_⟩
      · simpa [get?, isKey] using value
      · simpa [set, isKey] using written

end Object

/-- The element of a container at an index, or why there is none. -/
def Store.elementAt (store : Store) (container index : Value) : Except Fault Value :=
  match container with
  | .array ref =>
    (Operator.place index (store.items ref).size).map fun place =>
      (store.items ref)[place]?.getD .null
  | .text text =>
    (Operator.place index text.toList.length).map fun place =>
      ((text.toList[place]?).map Value.ofCharacter).getD .null
  | .object ref =>
    if index.isNull then .error .nullIndexKey
    else if (store.object ref).contains index then
      .ok (((store.object ref).get? index).getD .null)
    else .error (.missingKey (store.text false index))
  | .null => .error .indexOfNull
  | _ => .error .notIndexable

theorem Store.elementAt_eq_ok_iff {store : Store} {container index element : Value} :
    store.elementAt container index = .ok element ↔ store.HasElement container index element := by
  cases container with
  | array ref => exact Operator.map_place_eq_ok_iff fun place => by simp
  | text text => exact Operator.map_place_eq_ok_iff fun place => by simp
  | object ref =>
    simp only [elementAt, HasElement, Object.contains_eq_isSome]
    by_cases isNull : index = .null
    · simp [isNull, Value.isNull]
    · cases found : (store.object ref).get? index <;> cases index <;> simp_all [Value.isNull]
  | _ => simp [elementAt, HasElement]

/-- A container, an index and the element that the container had there. -/
structure Access where
  container : Value
  index : Value
  element : Value

/-- Reading an element that has been found. -/
def Access.elementOf : EStateM.Result Failure Machine Access →
    EStateM.Result Failure Machine Value
  | .ok access machine => .ok access.element machine
  | .error failure machine => .error failure machine

/-- Whether a value has elements that can be read. -/
def Value.isIndexable : Value → Bool
  | .array _ | .text _ | .object _ => true
  | _ => false

/-- Whether a value has elements that can be replaced. -/
def Value.isReplaceable : Value → Bool
  | .array _ | .object _ => true
  | _ => false

section

variable (inner : Evaluator) (frame : Frame)

/--
How an element is found, or why not.  The container is evaluated and then the
index; whether there is such an element is decided right behind the index.
-/
inductive Finds (fits : Value → Bool) (base position : Expr)
    (machine : Machine) : EStateM.Result Failure Machine Access → Prop
  | baseFails {failure : Failure} {middle : Machine} :
      inner.evaluate frame base machine = .error failure middle →
      Finds fits base position machine (.error failure middle)
  | otherKind {container : Value} {middle : Machine} {fault : Fault} :
      inner.evaluate frame base machine = .ok container middle →
      fits container = false →
      Finds fits base position machine
        (.error (.raised { place := some base.firstToken.start, fault := fault }) middle)
  | indexFails {container : Value} {failure : Failure} {middle behind : Machine} :
      inner.evaluate frame base machine = .ok container middle → fits container = true →
      inner.evaluate frame position middle = .error failure behind →
      Finds fits base position machine (.error failure behind)
  | missing {container index : Value} {middle behind : Machine} {fault : Fault} :
      inner.evaluate frame base machine = .ok container middle →
      fits container = true →
      inner.evaluate frame position middle = .ok index behind →
      (∀ element, ¬ behind.store.HasElement container index element) →
      Finds fits base position machine
        (.error (.raised { place := some base.firstToken.start, fault := fault }) behind)
  | found {container index element : Value} {middle behind : Machine} :
      inner.evaluate frame base machine = .ok container middle → fits container = true →
      inner.evaluate frame position middle = .ok index behind →
      behind.store.HasElement container index element →
      Finds fits base position machine (.ok ⟨container, index, element⟩ behind)

/-- One slot of an array is replaced, and nothing else. -/
structure Store.ReplacesItem (before : Store) (ref : Ref .array) (place : Nat) (value : Value)
    (after : Store) : Prop where
  slot : (after.items ref)[place]? = some value
  length : (after.items ref).size = (before.items ref).size
  slots : ∀ other ≠ place, (after.items ref)[other]? = (before.items ref)[other]?
  arrays : ∀ other ≠ ref, after.items other = before.items other
  rest : after = { before with arrays := after.arrays }

/-- The value of one key of an object is replaced, and nothing else. -/
structure Store.ReplacesValue (before : Store) (ref : Ref .object) (key value : Value)
    (after : Store) : Prop where
  entry : ∃ front known rest, before.object ref = front ++ known :: rest ∧
    known.key.same key = true ∧ (before.object ref).get? key = some known.value ∧
    after.object ref = front ++ ⟨key, value⟩ :: rest
  objects : ∀ other ≠ ref, after.object other = before.object other
  rest : after = { before with objects := after.objects }

/--
How replacing an element that was found ends.  `@` is the old element while the
value is evaluated; the new one is put in its place, unless the array has become
too short for it meanwhile.
-/
inductive Replaces (token : Token) (expression : Expr) :
    EStateM.Result Failure Machine Access → EStateM.Result Failure Machine Value → Prop
  | notFound {failure : Failure} {behind : Machine} :
      Replaces token expression (.error failure behind) (.error failure behind)
  | valueFails {access : Access} {failure : Failure} {behind last : Machine} :
      inner.evaluateReplacing frame (some access.element) expression behind =
        .error failure last →
      Replaces token expression (.ok access behind) (.error failure last)
  | itemGone
      {ref : Ref .array} {index element value : Value} {place : Nat} {behind last : Machine} :
      index.StandsFor place →
      inner.evaluateReplacing frame (some element) expression behind = .ok value last →
      (last.store.items ref).size ≤ place →
      Replaces token expression (.ok ⟨.array ref, index, element⟩ behind)
        (.error (.raised { place := some token.start, fault := .indexOutOfRange place }) last)
  | itemReplaced
      {ref : Ref .array}
      {index element value : Value}
      {place : Nat}
      {behind last : Machine}
      {store : Store} :
      index.StandsFor place →
      inner.evaluateReplacing frame (some element) expression behind = .ok value last →
      place < (last.store.items ref).size →
      last.store.ReplacesItem ref place value store →
      Replaces token expression (.ok ⟨.array ref, index, element⟩ behind)
        (.ok value { last with store := store })
  | valueReplaced
      {ref : Ref .object} {key element value : Value} {behind last : Machine} {store : Store} :
      inner.evaluateReplacing frame (some element) expression behind = .ok value last →
      last.store.ReplacesValue ref key value store →
      Replaces token expression (.ok ⟨.object ref, key, element⟩ behind)
        (.ok value { last with store := store })

end

namespace Evaluator

/-- Find an element: a container that fits, the index, and what is there right behind the index. -/
def findElement (evaluator : Evaluator) (frame : Frame) (fits : Value → Bool)
    (refusal : Value → Fault) (base position : Expr) : Action Access := do
  let container ← evaluator.evaluate frame base
  if fits container then
    let index ← evaluator.evaluate frame position
    let looked ← Action.inspect fun store => store.elementAt container index
    return ⟨container, index, ← checked base.firstToken looked⟩
  else
    Action.raiseAt base.firstToken (refusal container)

/-- Put a value in the place of an element that has been found. -/
def replaceElement (token : Token) (access : Access) (value : Value) : Action Value := do
  match access.container with
  | .array ref =>
    let length ← Action.inspect fun store => (store.items ref).size
    let place ← checked token (Operator.place access.index length)
    Action.change (·.modifyArray ref fun items => items.setIfInBounds place value)
    return value
  | .object ref =>
    Action.change (·.setKey ref access.index value)
    return value
  | _ => Action.raiseAt token .notElementAssignable

theorem replaceElement_array (token : Token) (ref : Ref .array) (index element value : Value)
    (machine : Machine) : replaceElement token ⟨.array ref, index, element⟩ value machine =
      (checked token (Operator.place index (machine.store.items ref).size) >>= fun place =>
        Action.change (·.modifyArray ref fun items => items.setIfInBounds place value) >>= fun _ =>
          pure value) machine :=
  rfl

/-- Why no element of a value can be read. -/
def noElements : Value → Fault
  | .null => .indexOfNull
  | _ => .notIndexable

variable {inner : Evaluator} {frame : Frame} {base position expression : Expr}
  {machine middle behind : Machine} {container index : Value}

theorem bind_boundedIn {next : Int → Nat → Action α} (token : Token) (ref : Ref .array)
    (index : Value) : (checked token (Operator.index index) >>= fun whole =>
        boundedIn token ref whole >>= next whole) =
      Action.inspect (fun store => (store.items ref).size) >>= fun length =>
        checked token (Operator.place index length) >>= fun place => next place place := by
  funext machine
  change _ = (checked token (Operator.place index (machine.store.items ref).size) >>= _) machine
  unfold Operator.place
  cases Operator.index index with
  | error fault => rfl
  | ok whole =>
    change (checked token (Operator.bounded whole _) >>= next whole) machine =
      (checked token (Operator.bounded whole _) >>= _) machine
    unfold Operator.bounded
    split
    · rename_i inside
      obtain ⟨place, rfl⟩ := Int.eq_ofNat_of_zero_le inside.1
      rfl
    · rfl

theorem evaluateKey_eq (inner : Evaluator) (frame : Frame) (token : Token) (ref : Ref .object)
    (position : Expr) :
    inner.evaluateKey frame token ref position = inner.evaluate frame position >>= fun index =>
      Action.inspect (fun store => store.elementAt (.object ref) index) >>= fun looked =>
        checked token (looked.map fun _ => index) := by
  unfold evaluateKey
  congr 1
  funext index machine
  change _ =
    checked token ((machine.store.elementAt (.object ref) index).map fun _ => index) machine
  simp only [Store.elementAt]
  split
  · rfl
  · refine (Action.bind_of_ok rfl).trans ?_
    split <;> rfl

theorem findElement_eq {fits : Value → Bool} {refusal : Value → Fault}
    (isBase : inner.evaluate frame base machine = .ok container middle)
    (isFitting : fits container = true)
    (isIndex : inner.evaluate frame position middle = .ok index behind) :
    inner.findElement frame fits refusal base position machine =
      (checked base.firstToken (behind.store.elementAt container index) >>= fun element =>
        pure ⟨container, index, element⟩) behind := by
  refine (Action.bind_of_ok isBase).trans ?_
  rw [if_pos isFitting]
  exact Action.bind_of_ok isIndex

theorem findElement_finds (inner : Evaluator) (frame : Frame) (fits : Value → Bool)
    (refusal : Value → Fault) (base position : Expr) (machine : Machine) :
    Finds inner frame fits base position machine
      (inner.findElement frame fits refusal base position machine) := by
  cases isBase : inner.evaluate frame base machine with
  | error failure middle =>
    rw [findElement, Action.bind_of_error isBase]
    exact .baseFails isBase
  | ok container middle =>
    cases isFitting : fits container with
    | false =>
      rw [findElement, Action.bind_of_ok isBase, isFitting]
      exact .otherKind isBase isFitting
    | true =>
      cases isIndex : inner.evaluate frame position middle with
      | error failure behind =>
        rw [findElement, Action.bind_of_ok isBase, if_pos isFitting,
          Action.bind_of_error isIndex]
        exact .indexFails isBase isFitting isIndex
      | ok index behind =>
        rw [findElement_eq isBase isFitting isIndex]
        cases looked : behind.store.elementAt container index with
        | error fault =>
          refine .missing isBase isFitting isIndex ?_
          intro element has
          cases looked.symm.trans (Store.elementAt_eq_ok_iff.mpr has)
        | ok element =>
          exact .found isBase isFitting isIndex (Store.elementAt_eq_ok_iff.mp looked)

theorem evaluateElement_eq (inner : Evaluator) (frame : Frame) (base position : Expr) :
    inner.evaluateElement frame base position =
      inner.findElement frame Value.isIndexable noElements base position >>= fun access =>
        pure access.element := by
  simp only [evaluateElement, findElement, bind_assoc]
  congr 1
  funext container
  cases container with
  | array ref =>
    simp only [evaluateIndex, bind_assoc, Value.isIndexable, if_true]
    congr 1
    funext index
    rw [bind_boundedIn]
    funext behind
    change (checked _ (Operator.place index (behind.store.items ref).size) >>= _) behind =
      (checked _ (behind.store.elementAt (.array ref) index) >>= _) behind
    simp only [Store.elementAt]
    cases Operator.place index (behind.store.items ref).size with
    | error fault => rfl
    | ok place =>
      change EStateM.Result.ok ((behind.store.items ref).getD place .null) behind = _
      rw [Array.getD_eq_getD_getElem?]
      rfl
  | text text =>
    simp only [evaluateIndex, bind_assoc, Value.isIndexable, if_true]
    congr 1
    funext index behind
    change _ = (checked _ (behind.store.elementAt (.text text) index) >>= _) behind
    simp only [Store.elementAt, Operator.place]
    cases Operator.index index with
    | error fault => rfl
    | ok whole =>
      change (checked _ (Operator.bounded whole _) >>= _) behind =
        (checked _ (Except.map _ (Operator.bounded whole _)) >>= _) behind
      cases Operator.bounded whole text.toList.length <;> rfl
  | object ref =>
    simp only [evaluateKey_eq, bind_assoc, Value.isIndexable, if_true]
    congr 1
    funext index behind
    change (checked _ ((behind.store.elementAt (.object ref) index).map _) >>= _) behind =
      (checked _ (behind.store.elementAt (.object ref) index) >>= _) behind
    cases looked : behind.store.elementAt (.object ref) index with
    | error fault => rfl
    | ok element =>
      change EStateM.Result.ok (((behind.store.object ref).get? index).getD .null) behind = _
      rw [(Store.elementAt_eq_ok_iff.mp looked).2]
      rfl
  | _ => rfl

theorem evaluateElement_finds (inner : Evaluator) (frame : Frame) (base position : Expr)
    (machine : Machine) : ∃ found,
      Finds inner frame Value.isIndexable base position machine found ∧
      inner.evaluateElement frame base position machine = Access.elementOf found := by
  refine ⟨_, findElement_finds inner frame _ noElements base position machine, ?_⟩
  rw [evaluateElement_eq]
  simp only [bind, EStateM.bind]
  cases inner.findElement frame Value.isIndexable noElements base position machine <;> rfl

end Evaluator

namespace Store

section

variable {store : Store} {ref : Ref .array} {change : Array Value → Array Value}

theorem items_modifyArray_other {other : Ref .array} (different : other ≠ ref) :
    (store.modifyArray ref change).items other = store.items other := by
  have indexes : ref.index ≠ other.index := by
    rintro same
    cases ref
    cases other
    exact different (congrArg _ same.symm)
  simp only [Store.items, Store.modifyArray, Array.getD_eq_getD_getElem?]
  rw [Array.getElem?_modify, if_neg indexes]

end

theorem replacesItem_modifyArray {store : Store} {ref : Ref .array} {place : Nat}
    (inside : place < (store.items ref).size) (value : Value) :
    store.ReplacesItem ref place value (store.modifyArray ref (·.setIfInBounds place value)) := by
  have existing : ref.index < store.arrays.size := by
    by_contra absent
    simp [Store.items, absent] at inside
  refine ⟨?_, ?_, ?_, fun other => items_modifyArray_other, rfl⟩
  all_goals rw [items_modifyArray_self existing]
  · simp [inside]
  · simp
  · intro other different
    simp [different.symm]

theorem replacesValue_setKey {store : Store} {ref : Ref .object} {key : Value}
    (has : (store.object ref).contains key = true) (value : Value) :
    store.ReplacesValue ref key value (store.setKey ref key value) where
  entry := by
    rw [object_setKey_self (lt_of_contains has)]
    exact Object.set_of_contains has
  objects other different := object_setKey_other different key value
  rest := rfl

end Store

namespace Evaluator

variable {inner : Evaluator} {frame : Frame} {expression : Expr}

theorem replaceElement_replaces {access : Access} {behind : Machine} (edits : inner.Edits)
    (isReplaceable : access.container.isReplaceable = true)
    (has : behind.store.HasElement access.container access.index access.element) (token : Token) :
    Replaces inner frame token expression (.ok access behind)
      ((inner.evaluateReplacing frame (some access.element) expression >>=
        replaceElement token access) behind) := by
  obtain ⟨container, index, element⟩ := access
  cases isValue : inner.evaluateReplacing frame (some element) expression behind with
  | error failure last =>
    rw [Action.bind_of_error isValue]
    exact .valueFails isValue
  | ok value last =>
    rw [Action.bind_of_ok isValue]
    cases container with
    | array ref =>
      obtain ⟨place, stands, -⟩ := has
      rw [replaceElement_array]
      by_cases inside : place < (last.store.items ref).size
      · rw [Operator.place_eq_ok_iff.mpr ⟨stands, inside⟩]
        exact .itemReplaced stands isValue inside (Store.replacesItem_modifyArray inside _)
      · have gone : Operator.place index (last.store.items ref).size =
            .error (.indexOutOfRange place) := by
          rw [Operator.place, Operator.index_eq_ok_iff.mpr stands]
          exact if_neg (by omega)
        rw [gone]
        exact .itemGone stands isValue (Nat.le_of_not_lt inside)
    | object ref =>
      -- the key is still there, for no code takes keys away
      obtain ⟨_, started, exposed, evaluated⟩ := Action.bind_eq_ok.mp isValue
      have changed : started.Edits (Action.after (inner.evaluate frame expression started)) :=
        edits ⟨frame, .evaluate expression, started⟩
      rw [evaluated] at changed
      cases exposed
      have there : (behind.store.object ref).contains index = true := by
        rw [Object.contains_eq_isSome, has.2]
        rfl
      have still := changed.store.contains there
      exact .valueReplaced isValue (Store.replacesValue_setKey still _)
    | _ => cases isReplaceable

/-- An element is found, the value is evaluated, and it is put in its place. -/
theorem assignElement_eq (inner : Evaluator) (frame : Frame) (base position expression : Expr) :
    inner.assignElement frame base position expression =
      inner.findElement frame Value.isReplaceable (fun _ => .notElementAssignable) base position >>=
        fun access => inner.evaluateReplacing frame (some access.element) expression >>=
            replaceElement base.firstToken access := by
  simp only [assignElement, findElement, bind_assoc]
  congr 1
  funext container
  cases container with
  | array ref =>
    simp only [evaluateIndex, bind_assoc, Value.isReplaceable, if_true]
    congr 1
    funext index
    rw [bind_boundedIn]
    funext behind
    change (checked _ (Operator.place index (behind.store.items ref).size) >>= _) behind =
      (checked _ (behind.store.elementAt (.array ref) index) >>= _) behind
    simp only [Store.elementAt]
    cases placed : Operator.place index (behind.store.items ref).size with
    | error fault => rfl
    | ok place =>
      have stands := (Operator.place_eq_ok_iff.mp placed).1
      have isIndex := Operator.index_eq_ok_iff.mpr stands
      change (inner.evaluateReplacing frame
        (some ((behind.store.items ref).getD place .null)) expression >>= _) behind = _
      rw [Array.getD_eq_getD_getElem?]
      have checks (next : Nat → Action Value) :
          (checked base.firstToken (Operator.index index) >>= fun whole =>
            boundedIn base.firstToken ref whole >>= next) = _ :=
        bind_boundedIn base.firstToken ref index
      rw [isIndex] at checks
      exact congrArg (fun next => (inner.evaluateReplacing frame _ expression >>= next) behind)
        (funext fun value => checks _)
  | object ref =>
    simp only [evaluateKey_eq, bind_assoc, Value.isReplaceable, if_true]
    congr 1
    funext index behind
    change (checked _ ((behind.store.elementAt (.object ref) index).map _) >>= _) behind =
      (checked _ (behind.store.elementAt (.object ref) index) >>= _) behind
    cases looked : behind.store.elementAt (.object ref) index with
    | error fault => rfl
    | ok element =>
      change (inner.evaluateReplacing frame
        (some (((behind.store.object ref).get? index).getD .null)) expression >>= _) behind = _
      rw [(Store.elementAt_eq_ok_iff.mp looked).2]
      rfl
  | _ => rfl

theorem assignElement_replaces (edits : inner.Edits) (frame : Frame)
    (base position expression : Expr) (machine : Machine) :
    ∃ found, Finds inner frame Value.isReplaceable base position machine found ∧
      Replaces inner frame base.firstToken expression found
        (inner.assignElement frame base position expression machine) := by
  have finds := findElement_finds inner frame Value.isReplaceable (fun _ => .notElementAssignable)
    base position machine
  refine ⟨_, finds, ?_⟩
  rw [assignElement_eq]
  cases found : inner.findElement frame Value.isReplaceable _ base position machine with
  | error failure behind =>
    rw [Action.bind_of_error found]
    exact .notFound
  | ok access behind =>
    rw [Action.bind_of_ok found]
    rw [found] at finds
    cases finds with
    | found isBase isReplaceable isIndex has =>
      exact replaceElement_replaces edits isReplaceable has base.firstToken

end Evaluator

/--
Reading and replacing elements are safe however evaluating their parts changes
the container, and replacing is atomic: all that is written is the one element,
and nothing if any part fails.
-/
theorem element_access_safe_and_atomic
    (depth : Nat)
    (frame : Frame)
    (base position expression : Expr)
    (opening closing : Token)
    (machine : Machine) :
    (∃ found,
      Finds (evaluator depth) frame Value.isIndexable base position machine found ∧
        (evaluator (depth + 1)).evaluate frame (.element base position opening closing) machine =
          Access.elementOf found) ∧
      ∃ found outcome,
        Finds (evaluator depth) frame Value.isReplaceable base position machine found ∧
          Replaces (evaluator depth) frame base.firstToken expression found outcome ∧
          (evaluator (depth + 1)).evaluate frame
              (.assign (.element base position opening closing) expression) machine =
            Action.mapAfter
              (·.modifyStore (·.setContext frame.scope (machine.store.scope frame.scope).context))
              outcome := by
  refine ⟨Evaluator.evaluateElement_finds _ frame base position machine, ?_⟩
  obtain ⟨found, finds, replaces⟩ :=
    Evaluator.assignElement_replaces (evaluator_edits depth) frame base position expression machine
  refine ⟨found, _, finds, replaces, ?_⟩
  change Action.keepingContext _ _ machine = _
  unfold Action.keepingContext
  cases (evaluator depth).assignElement frame base position expression machine <;> rfl

end ArrowScript

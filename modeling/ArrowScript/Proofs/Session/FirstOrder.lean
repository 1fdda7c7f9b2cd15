import ArrowScript.Proofs.Session.Reachable

namespace ArrowScript

/-!
# Functions are no values

A function is called by its name and cannot be passed around.  There is a kind
of values for functions all the same, for natives of the program around.  With
the standard registry no such value comes up: the natives of the language make
none, and no expression evaluates to one.
-/

/-- Neither variables nor `@`, arrays or objects hold a function. -/
structure Store.FirstOrder (store : Store) : Prop where
  bindings : ∀ ref, ∀ item ∈ (store.scope ref).bindings, item.2.value.isFunction = false
  context : ∀ ref, ∀ value ∈ (store.scope ref).context, value.isFunction = false
  items : ∀ items ∈ store.arrays, ∀ value ∈ items, value.isFunction = false
  entries : ∀ object ∈ store.objects, ∀ item ∈ object,
    item.key.isFunction = false ∧ item.value.isFunction = false
  values : store.functions = #[]

/-- No functions among the values, and no natives but those of the language. -/
def Law.firstOrder : Law where
  value _ each := each.isFunction = false
  native each := ∀ fn, each ≠ .host fn
  functions known := known = #[]
  registry known := known = .standard
  sources _ := True
  silent := none
  plain _ _ isPlain := Value.isFunction_of_isPlain isPlain
  array _ _ _ := rfl
  object _ _ _ := rfl
  later _ _ _ _ isNone := isNone
  registered := by
    rintro known rfl
    simp [Registry.standard]
  hosted fn isOwn := (isOwn fn rfl).elim
  fileless := by simp

theorem Law.firstOrder_isLoud : firstOrder.IsLoud where
  alone := rfl
  numbered _ := trivial
  grouped := by
    rintro known rfl name natives isGroup each mem fn rfl
    rcases Registry.group?_standard isGroup with ⟨rfl, rfl⟩ | ⟨rfl, rfl⟩
    · simp at mem
    · simp at mem

theorem Law.AllowsStore.isFirstOrder {store : Store} (allows : firstOrder.AllowsStore store) :
    store.FirstOrder where
  bindings ref := (allows.scopes ref).bindings
  context ref := (allows.scopes ref).context
  items := allows.arrays
  entries := allows.objects
  values := allows.functions

/-- The program around makes outermost scopes and leaves the rest to the programs it runs. -/
theorem Session.ComesUp.firstOrder {machine : Machine}
    (comesUp : ComesUp (· = .newScope none) .standard machine) :
      Law.firstOrder.Allows machine := by
  apply comesUp.allowed Law.firstOrder_isLoud rfl rfl
  rintro store operation allows rfl -
  exact (allows.newScope (.blank none)).mono (.newScope store _)

/--
Functions never become values.  On every machine of a session that runs programs
in outermost scopes with the standard registry, no variable, `@`, array or object
holds a function.  Wherever a call is evaluated from there, no function is passed
to it and none is returned.
-/
theorem Session.functions_never_become_values
    {machine : Machine}
    (comesUp : ComesUp (· = .newScope none) .standard machine) :
    machine.store.FirstOrder ∧
      ∀ depth frame callee arguments,
        (∀ values after,
          (evaluator depth).evaluateArguments frame arguments machine = .ok values after →
          ∀ value ∈ values, value.isFunction = false) ∧
        ∀ value after,
          (evaluator depth).evaluateCall frame callee arguments machine = .ok value after →
          value.isFunction = false := by
  have allows := comesUp.firstOrder
  refine ⟨allows.store.isFirstOrder, ?_⟩
  intro depth frame callee arguments
  have governs := evaluator_governs Law.firstOrder_isLoud depth
  refine ⟨?_, ?_⟩
  · have obeys :
        Obeys Law.firstOrder (evaluator depth) machine.store
          (·.evaluateArguments frame arguments)
          fun _ values => ∀ value ∈ values, value.isFunction = false :=
      (Law.firstOrder.discipline governs frame).evaluateArguments fun _ _ => trivial
    obtain ⟨visits, -, -, ends⟩ := obeys machine (.refl _) allows
    exact ends.holds
  · have obeys :
        Obeys Law.firstOrder (evaluator depth) machine.store
          (·.evaluateCall frame callee arguments) fun _ value => value.isFunction = false :=
      Evaluator.evaluateCall_obeys governs Law.firstOrder_isLoud.replaces trivial
    obtain ⟨visits, -, -, ends⟩ := obeys machine (.refl _) allows
    exact ends.holds

/-- A program with a function of its own and natives that it has imported. -/
theorem Session.functions_never_become_values_after_call :
    let start : Machine := { store := (Operation.perform .standard .empty (.newScope none)).2 }
    let text := "use \"Regex\"\nfn @f a => [a] -> break\n@f 1 -> var x"
    let machine := Action.after (run 12 ⟨0⟩ text start)
    ComesUp (· = .newScope none) .standard machine ∧
      (machine.store.scope ⟨0⟩).functions.length = 4 ∧
      (machine.store.scope ⟨0⟩).bindings.length = 1 ∧
      machine.store.FirstOrder := by
  intro start text machine
  have fresh : ComesUp (· = .newScope none) .standard {} := .fresh rfl rfl
  have starts : ComesUp (· = .newScope none) .standard start :=
    .operation fresh rfl (by simp [Operation.IsGrounded])
  have comesUp : ComesUp (· = .newScope none) .standard machine :=
    .run 12 text starts Nat.one_pos
  refine ⟨comesUp, ?_, ?_, (functions_never_become_values comesUp).1⟩
  · decide +kernel
  · decide +kernel

end ArrowScript

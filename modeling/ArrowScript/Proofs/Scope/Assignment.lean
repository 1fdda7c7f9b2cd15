import ArrowScript.Proofs.Scope.Lexical

namespace ArrowScript

/-!
# Which variable an assignment overwrites

An assignment looks up its target twice: for the value of `@` before its own
value is evaluated, and for the entry to overwrite afterwards.  Both find the
same entry unless the value itself defines the name, in the scope where the
assignment stands and where the name was not defined before.
-/

namespace Store

variable {store : Store} {ref owner : Ref .scope} {name : String}

theorem find?_of_visible {kind : NameKind} {names : Scope → Namespace α}
    {found : Ref .scope × Entry α} (seen : store.visible kind names ref name = .ok found) :
    store.find? names ref name = some found := by
  unfold visible at seen
  split at seen
  · cases seen
  · split at seen
    · cases seen
    · cases seen
      assumption

theorem find?_of_variableNamed {reader : Option Site} {value : Value}
    (resolved : store.variableNamed ref reader name = .ok value) : ∃ owner entry,
      store.find? Scope.bindings ref name = some (owner, entry) ∧ entry.value = value := by
  unfold variableNamed at resolved
  cases seen : store.visible .variableName Scope.bindings ref name with
  | error fault => simp [seen, bind, Except.bind] at resolved
  | ok found =>
    refine ⟨found.1, found.2, find?_of_visible seen, ?_⟩
    simp only [seen, bind, Except.bind] at resolved
    split at resolved
    · cases resolved
    · cases resolved
      rfl

theorem find?_of_ownerOf (resolved : store.ownerOf ref name = .ok owner) :
    ∃ entry, store.find? Scope.bindings ref name = some (owner, entry) := by
  unfold ownerOf at resolved
  cases seen : store.visible .variableName Scope.bindings ref name with
  | error fault => simp [seen, bind, Except.bind] at resolved
  | ok found =>
    rw [seen] at resolved
    cases resolved
    exact ⟨found.2, find?_of_visible seen⟩

theorem hasScope_of_find? {other : Ref .scope} {entry : Entry Value}
    (found : store.find? Scope.bindings ref name = some (owner, entry))
    (mem : other ∈ store.chain ref) : store.HasScope other := by
  obtain ⟨rest, chain, older⟩ := store.chain_eq_cons ref
  by_cases existing : store.HasScope ref
  · rw [chain] at mem
    rcases List.mem_cons.mp mem with rfl | deeper
    · exact existing
    · exact Nat.lt_trans (older other deeper) existing
  · have isRoot := scope_of_not_hasScope existing
    rw [find?_eq_findIn, chain_of_outermost (by rw [isRoot]; rfl), findIn_cons_of_none] at found
    · cases found
    · rw [isRoot]
      rfl

end Store

/--
What an assignment overwrites: the entry whose value `@` was, or an entry of the
scope where it stands that was not there before its value was evaluated.
-/
def Overwrites (inner : Evaluator) (frame : Frame) (name : Token) (expr : Expr)
    (machine : Machine) (value : Value) (final : Machine) : Prop :=
  ∃ owner entry last written current,
    machine.store.find? Scope.bindings frame.scope name.lexeme = some (owner, entry) ∧
      inner.evaluateReplacing frame (some entry.value) expr machine = .ok value last ∧
      last.store.find? Scope.bindings frame.scope name.lexeme = some (written, current) ∧
      final =
        (last.modifyStore (·.setVariable written name.lexeme value)).modifyStore
          (·.setContext frame.scope (machine.store.scope frame.scope).context) ∧
      (written = owner ∧ entry.traits = current.traits ∨
        written = frame.scope ∧
          (machine.store.scope frame.scope).bindings.lookup name.lexeme = none)

/--
An assignment overwrites the entry whose value `@` was, unless its value defines
the name anew in the scope where the assignment stands.
-/
theorem assignment_overwrites_exposed_unless_redefined
    {depth : Nat}
    {frame : Frame}
    {name : Token}
    {expression : Expr}
    {value : Value}
    {machine final : Machine}
    (ran :
      (evaluator (depth + 1)).evaluate frame (.assign (.reference name) expression) machine =
        .ok value final) :
    Overwrites (evaluator depth) frame name expression machine value final := by
  change Action.keepingContext _ ((evaluator depth).assignVariable frame name expression) machine =
    _ at ran
  unfold Action.keepingContext at ran
  cases assigned : (evaluator depth).assignVariable frame name expression machine with
  | error failure after =>
    rw [assigned] at ran
    cases ran
  | ok result after =>
    rw [assigned] at ran
    cases ran
    obtain ⟨replaced, _, read, replacing⟩ := Action.bind_eq_ok.mp assigned
    obtain ⟨resolved, rfl⟩ := Action.lookUp_eq_ok read
    obtain ⟨_, _, evaluated, writing⟩ := Action.bind_eq_ok.mp replacing
    obtain ⟨written, last, looked, wrote⟩ := Action.bind_eq_ok.mp writing
    obtain ⟨owns, rfl⟩ := Action.lookUp_eq_ok looked
    cases wrote
    obtain ⟨owner, entry, wasFound, rfl⟩ := Store.find?_of_variableNamed resolved
    obtain ⟨current, found⟩ := Store.find?_of_ownerOf owns
    refine ⟨owner, entry, last, written, current, wasFound, evaluated, found, rfl, ?_⟩
    have extended := (progress_of_evaluateReplacing evaluated).extends
    rcases extended.found_again_or_new (fun _ => Store.hasScope_of_find? wasFound) found with
      ⟨earlier, same, traits⟩ | ⟨isOwn, wasAbsent, -⟩
    · cases wasFound.symm.trans same
      exact .inl ⟨rfl, traits⟩
    · exact .inr ⟨isOwn, wasAbsent⟩

namespace Redefinition

def name : Token :=
  { kind := .identifier, lexeme := "x", start := default, value := .none }

/-- An array of `@` and of a string that is declared under the same name. -/
def value : Expr :=
  .array default
    [⟨.context default, false⟩,
      ⟨.assign (.declaration default name) (.literal (.text "new") default), false⟩]
    default

/-- An outer scope with a variable of this name, and an inner scope. -/
def machine : Machine :=
  { store :=
      { scopes :=
          #[{ parent := none, bindings := [("x", { value := .text "old", isPublic := false })] },
            .child ⟨0⟩] } }

/-- How the assignment ends in the inner scope. -/
def outcome : EStateM.Result Failure Machine Value :=
  (evaluator 4).evaluate ⟨⟨1⟩, 0⟩ (.assign (.reference name) value) machine

end Redefinition

theorem assignment_overwrites_exposed_unless_redefined_in_array :
    ∃ result final,
      Redefinition.outcome = .ok result final ∧
        Overwrites (evaluator 3) ⟨⟨1⟩, 0⟩ Redefinition.name Redefinition.value
          Redefinition.machine result final := by
  have succeeds : Redefinition.outcome matches .ok _ _ := by
    decide +kernel
  cases ran : Redefinition.outcome with
  | ok result final =>
    exact ⟨result, final, rfl, assignment_overwrites_exposed_unless_redefined ran⟩
  | error failure final =>
    rw [ran] at succeeds
    cases succeeds

/-- The value of `@` was that of the outer variable, but the inner one is overwritten. -/
theorem exposed_variable_kept :
    (match Redefinition.outcome with
      | .ok _ final =>
        some
          (final.store.items ⟨0⟩,
            ((final.store.scope ⟨0⟩).bindings.lookup "x").map Entry.value,
            ((final.store.scope ⟨1⟩).bindings.lookup "x").map Entry.value)
      | .error _ _ => none) =
      some (#[.text "old", .text "new"], some (.text "old"), some (.array ⟨0⟩)) := by
  decide +kernel

end ArrowScript

import ArrowScript.Proofs.Evaluation.Veil

namespace ArrowScript

/-!
# Code behind a veil

Whatever a barred reader evaluates or executes is blind to the cell behind the
veil, as long as what is nested inside it is, since being blind is a discipline.
A name is found only where the reader may look, so the constructs
that use names come down to looking past the cell; an assignment writes where a
name was found, and an import copies a scope that was made for it.
-/

/-- Evaluators that go on alike behind a veil. -/
structure Veil.Covers (veil : Veil) (left right : Evaluator) : Prop where
  rounds : right.rounds = left.rounds
  evaluate : ∀ frame expression,
    veil.Blind (left.evaluate frame expression) (right.evaluate frame expression)
  execute : ∀ frame statement,
    veil.Blind (left.execute frame statement) (right.execute frame statement)

/--
A reader is barred from the cell behind a veil: the entry there is private, and
it was imported or the reader stands outside from the beginning.
-/
def Veil.Bars (veil : Veil) (reader : Ref .scope) : Prop :=
  ∃ isForeign declared,
    veil.traits = (false, isForeign, declared) ∧
      (isForeign = true ∨
        veil.start.HasScope reader ∧ veil.start.isWithin reader veil.cell.scope = false)

/-- Who is barred from the beginning is barred at every moment. -/
theorem Veil.Bars.at {veil : Veil} {reader : Ref .scope} {store : Store} (barred : veil.Bars reader)
    (hides : veil.Hides store) : store.Bars veil.cell reader := by
  obtain ⟨isForeign, declared, traits, kept⟩ := barred
  refine ⟨isForeign, declared, traits ▸ hides.traits, kept.imp_right ?_⟩
  rintro ⟨existing, outside⟩
  unfold Store.isWithin at outside ⊢
  rw [hides.grows.chain_eq existing]
  exact outside

open Veil

/-- A barred reader finds the same under names, whatever the cell holds. -/
theorem Veil.Bars.blinds {veil : Veil} {reader : Ref .scope} (barred : veil.Bars reader) :
    veil.touch.Blinds reader where
  visible hides kind name := (barred.at hides).visible_put veil.content kind name
  member hides kind group name := (barred.at hides).member_put veil.content kind group name
  writes hides found value := Store.setVariable_put
    ((barred.at hides).cell_ne_of_ownerOf found) value

section

variable {veil : Veil} {left right : Evaluator} {frame : Frame} {parted : Bool}

theorem Veil.Covers.likewise (covers : veil.Covers left right) (parted : Bool) :
    (veil.likeness parted).Covers left right where
  rounds := covers.rounds
  execute frame statement _ := (covers.execute frame statement).runs parted

variable (covers : veil.Covers left right) (barred : veil.Bars frame.scope)

include covers barred

theorem Veil.Covers.past : (veil.likeness parted).Past .anything frame left right where
  blinds := barred.blinds
  evaluate expression _ := (covers.evaluate frame expression).runs parted
  context _ := .inspect fun {store} _ => by
    show ((store.put veil.cell veil.content).scope _).context = _
    rw [Store.scope_put, Store.context_putIn]

/-- The member was looked for before the value was evaluated; its cell is not barred since. -/
theorem Evaluator.assignMember_blind (group : Expr) (name : Token) (expr : Expr) :
    (veil.likeness parted).Runs (left.assignMember frame group name expr)
      (right.assignMember frame group name expr) := by
  let rules := (covers.likewise parted).discipline (covers.past barred)
  have found : rules.Holds () _ (·.evaluateGroup frame group) := rules.evaluateGroup trivial
  apply Likeness.Runs.bind found
  intro group machine other alike
  have looks : veil.touch.Misses (Action.lookUp (some name.start) fun store =>
      store.member .variableName Scope.bindings group.scope frame.scope name.lexeme) :=
    .lookUp fun hides => barred.blinds.member hides .variableName group.scope _
  apply (Likeness.misses _ looks alike).bind
  intro entry _ otherMiddle looked _ alikeThen
  obtain ⟨given, rfl⟩ := Action.lookUp_eq_ok looked
  have replaces : rules.Holds () _ (·.evaluateReplacing frame (some entry.value) expr) :=
    rules.evaluateReplacing trivial (Carried.nothing (some entry.value)) trivial
  apply (replaces _ otherMiddle alikeThen).bind
  rintro value middle _ _ grows ⟨later, still, relates⟩
  have writes : middle.store.Grows (middle.store.setVariable group.scope name.lexeme value) :=
    .setVariable middle.store group.scope name.lexeme value
  refine .ok writes ⟨later, still, ?_⟩
  apply relates.map (·.modifyStore (·.setVariable group.scope name.lexeme value)) writes
  intro hides
  exact congrArg (fun store => { middle with store := store })
    (Store.setVariable_put ((barred.at hides).cell_ne_of_member grows given) value)

end

/-- A task that imports names. -/
def Task.imports : Task → Bool
  | .execute (.use _ _) => true
  | _ => false

/-- What a task of a barred reader does by itself is blind to the cell. -/
theorem Veil.Covers.step {veil : Veil} {left right : Evaluator} {frame : Frame} {parted : Bool}
    {machine : Machine} {task : Task} (covers : veil.Covers left right)
    (barred : veil.Bars frame.scope)
    (elsewhere : task.imports = true → veil.cell.scope ≠ machine.nextScope) :
    veil.BlindAt parted machine (left.step frame task) (right.step frame task) := by
  intro other relates
  apply Ends.of_alike
  have alike : veil.RelatesSince parted machine other := ⟨parted, id, relates⟩
  let likewise := covers.likewise parted
  have past : (veil.likeness parted).Past .anything frame left right := covers.past barred
  cases task with
  | evaluate expr =>
    have fits := Allowance.anything_fits expr
    let rules := likewise.discipline past
    have special : rules.Special :=
      { assignKey := rules.assignKey fun _ _ _ _ _ _ =>
          .misses (.detached (.change fun _ _ => rfl))
        assignMember := fun name _ _ _ => Evaluator.assignMember_blind covers barred _ name _ }
    refine rules.evaluateExpression special () fits ?_ machine other alike
    rintro callee args rfl
    exact rules.evaluateCall (likewise.calling past) () fits
  | execute stmt =>
    by_cases isUse : ∃ keyword path, stmt = .use keyword path
    · obtain ⟨keyword, path, rfl⟩ := isUse
      apply (likewise.use frame path machine other alike (elsewhere rfl).symm).bind
      exact fun _ middle otherMiddle _ _ => Likeness.Runs.misses (.pure _) middle otherMiddle
    · refine (likewise.discipline past).executeStatement () (Allowance.anything_fitsStatement _) ?_
        machine other alike
      exact fun keyword path same => (isUse ⟨keyword, path, same⟩).elim

end ArrowScript

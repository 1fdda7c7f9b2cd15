import ArrowScript.Proofs.Evaluation.Likeness

namespace ArrowScript

/-!
# Actions behind a veil

A veil is drawn over a cell from some moment on: as long as the entry there has
certain traits, another content may fill it.  Two actions are blind behind the
veil if they end alike on machines that differ in nothing but the content of the
cell, and leave machines behind that still differ in nothing else.

The machines may be the same at first and part later, when something that is
nested in the actions fills the cell.  Once parted they stay parted: an action
that wrote to the cell would bring them together again.
-/

/-- A cell and the traits of its entry, what else may fill it, and the store at the beginning. -/
structure Veil where
  start : Store
  cell : Cell
  traits : Bool × Bool × Option Site
  content : cell.kind.Content

namespace Veil

/-- Fill the cell of a machine otherwise. -/
def fill (veil : Veil) (machine : Machine) : Machine :=
  machine.modifyStore (Store.put veil.cell veil.content)

/-- The veil hides what the cell hides: the entry there has the traits of the veil. -/
structure Hides (veil : Veil) (store : Store) : Prop where
  grows : veil.start.Grows store
  traits : store.traits? veil.cell = some veil.traits

/-- Machines that are the same, or have parted and differ in the content of the cell. -/
inductive Relates (veil : Veil) : Bool → Machine → Machine → Prop
  | same (machine : Machine) : Relates veil false machine machine
  | parted {machine : Machine} : veil.Hides machine.store →
      Relates veil true machine (veil.fill machine)

/-- Outcomes that are alike, on machines related at least as they were at the start. -/
inductive Ends {α : Type} (veil : Veil) (parted : Bool) (start : Machine) :
    EStateM.Result Failure Machine α → EStateM.Result Failure Machine α → Prop
  | ok {later : Bool} {value : α} {final other : Machine} : (parted = true → later = true) →
      start.store.Grows final.store → veil.Relates later final other →
      Ends veil parted start (.ok value final) (.ok value other)
  | error {later : Bool} {failure : Failure} {final other : Machine} :
      (parted = true → later = true) → start.store.Grows final.store →
      veil.Relates later final other →
      Ends veil parted start (.error failure final) (.error failure other)

/-- From a machine on, two actions go on alike. -/
def BlindAt (veil : Veil) (parted : Bool) (machine : Machine)
    (left right : Action α) : Prop :=
  ∀ other, veil.Relates parted machine other →
    veil.Ends parted machine (left machine) (right other)

/-- Two actions go on alike, whatever the cell hides. -/
def Blind (veil : Veil) (left right : Action α) : Prop :=
  ∀ parted machine, veil.BlindAt parted machine left right

variable {α : Type} {veil : Veil} {parted : Bool} {machine other : Machine}

theorem Hides.trans {before after : Store} (hides : veil.Hides before)
    (grows : before.Grows after) : veil.Hides after where
  grows := hides.grows.trans grows
  traits := grows.traits?_eq hides.traits

/-- A change that does not see the cell leaves machines related. -/
theorem Relates.map (relates : veil.Relates parted machine other)
    (change : Machine → Machine) (grows : machine.store.Grows (change machine).store)
    (commutes : veil.Hides machine.store →
      change (veil.fill machine) = veil.fill (change machine)) :
    veil.Relates parted (change machine) (change other) := by
  cases relates with
  | same => exact .same _
  | parted hides =>
    rw [commutes hides]
    exact .parted (hides.trans grows)

theorem Relates.context_eq (relates : veil.Relates parted machine other)
    (ref : Ref .scope) : (other.store.scope ref).context = (machine.store.scope ref).context := by
  cases relates with
  | same => rfl
  | parted hides =>
    show ((machine.store.put veil.cell veil.content).scope ref).context = _
    rw [Store.scope_put, Store.context_putIn]

theorem Relates.setContext (relates : veil.Relates parted machine other)
    (ref : Ref .scope) (context : Option Value) :
    veil.Relates parted (machine.modifyStore (·.setContext ref context))
      (other.modifyStore (·.setContext ref context)) := by
  apply relates.map (·.modifyStore (·.setContext ref context))
  · exact .setContext machine.store ref context
  · intro _
    simp only [fill, Machine.modifyStore, Store.setContext_put]

variable {left right action : Action α}

theorem Blind.own
    (grows : ∀ machine : Machine, machine.store.Grows (Action.after (action machine)).store)
    (commutes : ∀ machine : Machine, veil.Hides machine.store →
      action (veil.fill machine) = Action.mapAfter veil.fill (action machine)) :
    veil.Blind action action := by
  intro parted machine other relates
  have growsHere := grows machine
  cases relates with
  | same =>
    cases outcome : action machine with
    | ok value final =>
      rw [outcome] at growsHere
      exact .ok (by simp) growsHere (.same final)
    | error failure final =>
      rw [outcome] at growsHere
      exact .error (by simp) growsHere (.same final)
  | parted hides =>
    rw [commutes machine hides]
    cases outcome : action machine with
    | ok value final =>
      rw [outcome] at growsHere
      exact .ok id growsHere (.parted (hides.trans growsHere))
    | error failure final =>
      rw [outcome] at growsHere
      exact .error id growsHere (.parted (hides.trans growsHere))

/-- Filling the cell otherwise is a touch of its scope. -/
def touch (veil : Veil) : Touch where
  owner := veil.cell.scope
  change := Scope.put veil.cell.kind veil.cell.name veil.content
  suits scope := (scope.names veil.cell.kind).has veil.cell.name = true
  Fits := veil.Hides
  subtle := Scope.put_subtle veil.cell.kind veil.cell.name veil.content
  hasScope hides := Store.hasScope_of_traits? hides.traits
  suited hides := Store.has_of_traits? hides.traits
  grown hides grows := hides.trans grows

theorem Blind.misses (misses : veil.touch.Misses action) : veil.Blind action action :=
  .own (fun machine => (misses machine).grows) fun machine => (misses machine).commutes

/-- Machines that have parted, if they had from the beginning. -/
def RelatesSince (veil : Veil) (parted : Bool) (machine other : Machine) : Prop :=
  ∃ later, (parted = true → later = true) ∧ veil.Relates later machine other

theorem Ends.alike {ended otherEnded : EStateM.Result Failure Machine α} {later : Bool}
    (ends : veil.Ends later machine ended otherEnded) (still : parted = true → later = true) :
    EndsAlike (veil.RelatesSince parted) machine ended otherEnded := by
  cases ends with
  | ok stillThen grows relates => exact .ok grows ⟨_, stillThen ∘ still, relates⟩
  | error stillThen grows relates => exact .error grows ⟨_, stillThen ∘ still, relates⟩

theorem Ends.of_alike {ended otherEnded : EStateM.Result Failure Machine α}
    (ends : EndsAlike (veil.RelatesSince parted) machine ended otherEnded) :
    veil.Ends parted machine ended otherEnded := by
  rcases ends with ⟨grows, _, still, relates⟩ | ⟨grows, _, still, relates⟩
  · exact .ok still grows relates
  · exact .error still grows relates

def likeness (veil : Veil) (parted : Bool) : Likeness veil.touch where
  Alike := veil.RelatesSince parted
  Open _ := True
  fresh _ := trivial
  misses missed := fun ⟨_, still, relates⟩ =>
    (Blind.misses missed _ _ _ relates).alike still
  setContext ref context := fun ⟨later, still, relates⟩ =>
    ⟨later, still, relates.setContext ref context⟩
  restore ref := fun ⟨_, _, relates⟩ ⟨later, still, relatesThen⟩ => by
    rw [relates.context_eq ref]
    exact ⟨later, still, relatesThen.setContext ref _⟩

theorem Blind.runs (blind : veil.Blind left right) (parted : Bool) :
    (veil.likeness parted).Runs left right :=
  fun machine other ⟨later, still, relates⟩ => (blind later machine other relates).alike still

end Veil

end ArrowScript

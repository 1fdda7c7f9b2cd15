import ArrowScript.Proofs.Evaluation.Deed
import ArrowScript.Proofs.Native.Manner

namespace ArrowScript

/-!
# Natives are deeds away from scopes

A native hands nothing over and neither touches a scope nor looks at one.  It
makes and changes arrays, looks at the store and changes the world; it leaves
objects and the imports that go on alone.  If it cannot use its arguments, it
refuses them without a place.
-/

/-- Errors with which natives refuse their arguments: they have no place. -/
def Refusing (place : Option Position) (fault : Fault) : Prop :=
  place = none ∧ ∃ reason, fault = .native reason

namespace Native

open ArrowScript.Action

/--
An action away from scopes that edits the store.  If it fails it refuses, or
fails as it may beyond refusing.
-/
structure Tame {α : Type} (beyond : Failure → Prop) (action : Action α) : Prop where
  detached : Detached action
  edits : ∀ machine : Machine, machine.Edits (after (action machine))
  refuses :
    ∀ machine failure final,
      action machine = .error failure final → Refused failure ∨ beyond failure

namespace Tame

variable {α β : Type} {beyond : Failure → Prop}

theorem of_ok {action : Action α} (detached : Detached action)
    (edits : ∀ machine : Machine, machine.Edits (after (action machine)))
    (ends : ∀ machine, ∃ value final, action machine = .ok value final) :
      Tame beyond action where
  detached := detached
  edits := edits
  refuses machine failure final failed := by
    obtain ⟨value, after, ended⟩ := ends machine
    rw [ended] at failed
    cases failed

theorem pure (value : α) : Tame beyond (Pure.pure value) :=
  of_ok (.pure value) .refl fun _ => ⟨_, _, rfl⟩

theorem bind {action : Action α} {next : α → Action β} (tame : Tame beyond action)
    (nextTame : ∀ value, Tame beyond (next value)) : Tame beyond (action >>= next) where
  detached := tame.detached.bind fun value => (nextTame value).detached
  edits machine := (tame.edits machine).bind fun value => (nextTame value).edits
  refuses machine failure final failed := by
    rcases bind_eq_error.mp failed with failed | ⟨value, middle, -, failed⟩
    · exact tame.refuses machine failure final failed
    · exact (nextTame value).refuses middle failure final failed

theorem refuse (fault : NativeFault) : Tame beyond (Native.refuse fault : Action α) where
  detached := .throw _
  edits := .refl
  refuses machine failure final failed := by
    cases failed
    exact .inl ⟨fault, rfl⟩

theorem look {view : Machine → α}
    (same : ∀ machine scopes, view (machine.withScopes scopes) = view machine) :
    Tame beyond (fun machine => .ok (view machine) machine : Action α) :=
  of_ok (.look same) .refl fun _ => ⟨_, _, rfl⟩

theorem inspect {view : Store → α}
    (same : ∀ store scopes, view (store.withScopes scopes) = view store) :
    Tame beyond (Action.inspect view) :=
  look fun machine => same machine.store

theorem changeGet {update : Store → α × Store} (same : ∀ store scopes,
      update (store.withScopes scopes) = ((update store).1, (update store).2.withScopes scopes))
    (edits : ∀ store : Store, store.Edits (update store).2) :
    Tame beyond (Action.changeGet update) :=
  of_ok (.changeGet same) (fun machine => ⟨edits machine.store, rfl, rfl, Nat.le_refl _⟩)
    fun _ => ⟨_, _, rfl⟩

theorem change {update : Store → Store}
    (same : ∀ store scopes, update (store.withScopes scopes) = (update store).withScopes scopes)
    (edits : ∀ store : Store, store.Edits (update store)) : Tame beyond (Action.change update) :=
  of_ok (.change same) (fun machine => ⟨edits machine.store, rfl, rfl, Nat.le_refl _⟩)
    fun _ => ⟨_, _, rfl⟩

theorem changeWorld (update : World → World) : Tame beyond (Action.changeWorld update) :=
  of_ok (.changeWorld update) (fun machine => ⟨.refl machine.store, rfl, rfl, Nat.le_refl _⟩)
    fun _ => ⟨_, _, rfl⟩

theorem throw {failure : Failure} (isBeyond : beyond failure) :
    Tame beyond (MonadExcept.throw failure : Action α) where
  detached := .throw failure
  edits := .refl
  refuses machine failure final failed := by
    cases failed
    exact .inr isBeyond

end Tame

variable {beyond : Failure → Prop}

/-- To be tame is a manner, whatever the ground is. -/
def Tame.manner (beyond : Failure → Prop) : Manner ⟨.empty, 0⟩ .nothing where
  Holds _ _ action := Tame beyond action
  usesFiles := True
  changesArrays := True
  fails := beyond
  pure result _ := .pure result
  bind holds next := holds.bind next
  refuse := .refuse
  throw isBeyond := .throw isBeyond
  size _ := .inspect fun _ _ => rfl
  text value := .inspect fun store scopes => store.text_withScopes scopes false value
  newArray _ :=
    (Tame.changeGet (fun _ _ => rfl) fun store => .newArray store _).bind fun _ =>
      .pure _
  changeItems ref _ change _ _ _ :=
    .change (fun _ _ => rfl) fun store => .modifyArray store ref change
  inspectFiles _ _ := .look fun _ _ => rfl
  changeFiles _ _ := .changeWorld _
  writeLine _ := .changeWorld _
  write _ := .changeWorld _
  memory := .look fun _ _ => rfl
  time := .look fun _ _ => rfl
  read :=
    .of_ok (fun _ _ => rfl)
      (fun machine => ⟨.refl machine.store, rfl, rfl, Nat.le_refl _⟩) fun _ => ⟨_, _, rfl⟩

mutual

theorem settle_withScopes (store : Store) (scopes : Array Scope) : (value : HostValue) →
      value.settle (store.withScopes scopes) =
        ((value.settle store).1, (value.settle store).2.withScopes scopes)
  | .settled _ => rfl
  | .integer _ => rfl
  | .list items => by
      simp only [HostValue.settle, settleAll_withScopes store scopes items]
      rfl

theorem settleAll_withScopes (store : Store) (scopes : Array Scope) : (items : List HostValue) →
      HostValue.settleAll (store.withScopes scopes) items = ((HostValue.settleAll store items).1,
          (HostValue.settleAll store items).2.withScopes scopes)
  | [] => rfl
  | item :: rest => by
      simp only [HostValue.settleAll, settle_withScopes store scopes item,
        settleAll_withScopes (item.settle store).2 scopes rest]

end

theorem runHost_tame (fn : HostFunction) (args : List Value) : Tame beyond (runHost fn args) := by
  unfold runHost
  split
  · exact
      .changeGet (fun store scopes => settle_withScopes store scopes _) fun store =>
        settle_keeps (fun later items edits => edits.trans (.newArray later items)) (.refl store) _
  · exact .refuse _

/-- No native touches a scope or looks at one, and only replacing matches fails without refusing. -/
theorem call_tame (native : Native) (args : List Value) :
    Tame (fun failure => native = .replaceMatches ∧ ∃ name, failure = .unknownGroup name)
      (native.call args) :=
  (Tame.manner _).call native (fun _ _ => trivial) (fun _ => trivial) (fun _ => trivial)
    (fun isReplace _ ⟨name, _, _, _, named, _⟩ => ⟨isReplace, name, named⟩)
    fun fn _ => runHost_tame fn args

/-- Every native is a deed that refuses its arguments if it raises an error. -/
theorem call_deed (native : Native) (args : List Value) : Deed Refusing (native.call args) where
  edits := (native.call_tame args).edits
  raises machine failure final failed := by
    rcases (native.call_tame args).refuses machine failure final failed with
      ⟨fault, rfl⟩ | ⟨-, name, rfl⟩
    · exact ⟨rfl, rfl, fault, rfl⟩
    · trivial

end Native

end ArrowScript

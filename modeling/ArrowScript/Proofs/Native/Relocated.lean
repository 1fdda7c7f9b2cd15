import ArrowScript.Proofs.Evaluation.Follows
import ArrowScript.Proofs.Native.Manner

namespace ArrowScript

/-!
# Natives on top of another store

A native looks at the arrays it is given and at the text of its arguments, and
makes arrays of its own.  None of this depends on where in the store they are.
-/

open ArrowScript.Action

namespace Native

variable {ground : Ground} {α : Type}

theorem newArray_follows (items : Array Value) :
    Follows ground (·.on ground) (newArray (items.map (·.on ground))) (newArray items) := by
  have allocated : Follows ground (·.on ground)
      (Action.changeGet (·.newArray (items.map (·.on ground))))
      (Action.changeGet (·.newArray items)) :=
    .changeGet fun store => store.newArray_on items
  exact allocated.bind fun _ => .pure rfl

theorem inspectFiles_follows (look : FileTree → Path → α) :
    Follows ground id (inspectFiles look) (inspectFiles look) :=
  .look fun _ => rfl

theorem runRead_follows : Follows ground (·.on ground) runRead runRead := by
  intro machine
  unfold runRead
  cases read : machine.world.readLine with
  | mk line world =>
    have readOn : (machine.on ground).world.readLine = (line, world) := read
    simp only [readOn]
    cases line <;> rfl

def followsManner (ground : Ground) : Manner ground .nothing where
  Holds _ left right := Follows ground (Carried.on · ground) left right
  usesFiles := True
  changesArrays := True
  fails _ := True
  pure _ _ := .pure rfl
  bind holds next := .bind holds next
  refuse _ := .raise _ _
  throw _ _ := rfl
  size ref :=
    .inspect fun store => by
      rw [Store.items_on, Array.size_map]
      rfl
  text value := .text false value
  newArray _ := newArray_follows _
  changeItems ref _ _ _ same _ := .change fun store => store.modifyArray_on ref same
  inspectFiles look _ := inspectFiles_follows look
  changeFiles _ _ := .changeWorld _
  writeLine _ := .changeWorld _
  write _ := .changeWorld _
  memory := .look fun _ => rfl
  time := .look fun _ => rfl
  read := runRead_follows

mutual

theorem settle_on (store : Store) : (value : HostValue) →
      (value.on ground).settle (store.on ground) =
        ((value.settle store).1.on ground, (value.settle store).2.on ground)
  | .settled _ => rfl
  | .integer _ => rfl
  | .list items => by
      simp only [HostValue.on, HostValue.settle]
      rw [settleAll_on store items]
      simp only [← List.map_toArray, Store.newArray_on]
      rfl

theorem settleAll_on (store : Store) : (items : List HostValue) →
      HostValue.settleAll (store.on ground) (HostValue.onAll ground items) =
        ((HostValue.settleAll store items).1.map (·.on ground),
          (HostValue.settleAll store items).2.on ground)
  | [] => rfl
  | item :: rest => by
      simp only [HostValue.onAll, HostValue.settleAll]
      rw [settle_on store item, settleAll_on (item.settle store).2 rest]
      rfl

end

theorem runHost_follows (fn : HostFunction) (args : List Value) :
    Follows ground (·.on ground)
      (runHost (fn.on ground) (args.map (·.on ground))) (runHost fn args) := by
  have called : (fn.on ground).call (args.map (·.on ground)) =
      (fn.call args).map (HostValue.on ground) := by
    simp [HostFunction.on, Function.comp_def]
  unfold runHost
  rw [called]
  cases fn.call args with
  | ok result => exact .changeGet fun store => settle_on store result
  | error message => exact .raise _ _

theorem call_follows (native : Native) (args : List Value) : Follows ground (·.on ground)
      ((native.on ground).call (args.map (·.on ground))) (native.call args) :=
  (followsManner ground).call native (fun _ _ => trivial) (fun _ => trivial) (fun _ => trivial)
    (fun _ _ _ => trivial) fun fn _ => runHost_follows fn args

end Native

end ArrowScript

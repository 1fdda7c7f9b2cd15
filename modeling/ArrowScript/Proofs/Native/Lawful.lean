import ArrowScript.Proofs.Evaluation.Obedience
import ArrowScript.Proofs.Native.Manner

namespace ArrowScript

/-!
# Natives keep to laws

A native gives back a new value, null or one of its arguments, and puts nothing
else into arrays.  Only functions of the host can give back anything, and only
natives for files see what the files are.
-/

open ArrowScript.Law

namespace Native

variable {law : Law} {within : Store}

theorem newArray_permits {items : Array Value}
    (allowed : ∀ value ∈ items, law.value within value) :
    law.Permits within (newArray items) law.value := by
  have made : law.Permits within (Action.changeGet (·.newArray items))
      fun store ref => ref.index < store.arrays.size :=
    .changeGet
      (fun store isLater allows =>
        allows.newArray fun value mem => law.later within store isLater value (allowed value mem))
      (fun store => .newArray store items) fun store => by simp [Store.newArray]
  exact made.bind fun later _ ref isThere => .pure fun store isLater =>
    law.array store ref (Nat.lt_of_lt_of_le isThere isLater.arrays)

theorem modifyArray_permits {change : Array Value → Array Value} (ref : Ref .array)
    (allowed : ∀ store, within.Precedes store → ∀ items : Array Value,
      (∀ value ∈ items, law.value store value) →
        ∀ value ∈ change items, law.value store value) :
    law.Permits within (Action.change (·.modifyArray ref change)) fun _ _ => True :=
  .change (fun store isLater allows => allows.modifyArray ref (allowed store isLater)) fun _ =>
    .of_arrays (Nat.le_of_eq (Array.size_modify).symm)

theorem readLine_withFiles (world : World) (files : FileTree) :
    (world.withFiles files).readLine = (world.readLine.1, world.readLine.2.withFiles files) := by
  unfold World.readLine
  have sameInput : (world.withFiles files).input = world.input := rfl
  rw [sameInput]
  split <;> rfl

theorem runRead_permits : law.Permits within runRead law.value := by
  intro machine _ allows
  have sameFiles : machine.world.readLine.2.files = machine.world.files := by
    unfold World.readLine
    split <;> rfl
  have changed : law.Allows { machine with world := machine.world.readLine.2 } :=
    allows.of_same allows.store allows.sources rfl rfl sameFiles
  have ran : runRead machine = .ok ((machine.world.readLine.1.map Value.text).getD .null)
      { machine with world := machine.world.readLine.2 } :=
    rfl
  refine .of_ok ran ?_ changed (.refl machine.store) ?_
  · cases isSilent : law.silent with
    | none => simp only [runRead, twin, isSilent]
    | some files => simp only [runRead, twin, isSilent, Machine.hushed, readLine_withFiles]
  · cases machine.world.readLine.1 <;> exact law.plain _ _ rfl

theorem runTime_permits : law.Permits within runTime law.value := by
  apply Permits.look
  · intro machine
    unfold twin
    split <;> rfl
  · exact fun _ _ => law.plain _ _ rfl

end Native

/-- What is known on a store where a law is obeyed. -/
def Law.knowledge (law : Law) (store : Store) : Knowledge :=
  ⟨law.value store, law.function, law.plain store⟩

theorem Law.knowledge_within {law : Law} {before after : Store} (precedes : before.Precedes after) :
    (law.knowledge before).Within (law.knowledge after) :=
  ⟨law.later before after precedes, fun _ known => known⟩

/-- What is known of a result on the store that it came with. -/
abbrev Law.known [Carried α] (law : Law) (store : Store) (result : α) : Prop :=
  Carried.known (law.knowledge store) result

/-- To keep to a law is a manner, whatever the ground is. -/
def Law.manner (law : Law) (within : Store) : Native.Manner ⟨.empty, 0⟩
    (law.knowledge within) where
  Holds _ _ action := law.Permits within action law.known
  usesFiles := law.silent = none
  changesArrays := True
  fails := law.demand.fails
  pure result known := .pure fun _ isLater => Carried.grow (knowledge_within isLater) result known
  bind holds next := holds.bind fun _ isLater result _ => (next result).later isLater
  refuse fault := .throw (law.demand.possible (.native fault) trivial)
  throw fails := .throw fails
  size _ := .glance _
  text _ := .glance _
  newArray := Native.newArray_permits
  changeItems ref _ _ _ _ known :=
    Native.modifyArray_permits ref fun _ isLater => known _ (knowledge_within isLater)
  inspectFiles _ isLoud := .look (fun _ => by simp only [twin, isLoud]) fun _ _ => trivial
  changeFiles _ isLoud := .changeFiles isLoud
  writeLine line := Obeys.writeLine_permits line
  write _ := .changeWorld fun _ _ => rfl
  memory := .look law.memory_twin fun _ _ => trivial
  time := Native.runTime_permits
  read := Native.runRead_permits

namespace Native

variable {law : Law} {within : Store} {args : List Value}

theorem settle_allowed (anything : ∀ store value, law.value store value) {store : Store}
    (allows : law.AllowsStore store) (value : HostValue) :
    law.AllowsStore (value.settle store).2 ∧ store.Precedes (value.settle store).2 := by
  apply @settle_keeps fun later => law.AllowsStore later ∧ store.Precedes later
  · rintro later items ⟨allows, precedes⟩
    have made := Store.Precedes.newArray later items
    exact ⟨(allows.newArray fun value _ => anything _ value).mono made, precedes.trans made⟩
  · exact ⟨allows, .refl store⟩

theorem runHost_permits {fn : HostFunction} (anything : ∀ store value, law.value store value)
    (args : List Value) : law.Permits within (runHost fn args) law.value := by
  unfold runHost
  split
  · intro machine _ allows
    have settled := settle_allowed anything allows.store
    refine .of_ok rfl ?_ (allows.withStore (settled _).1) (settled _).2 (anything _ _)
    simp only [Action.changeGet, store_twin, twin_withStore]
  · exact .throw (law.demand.possible _ trivial)

/-- A native that uses files is allowed by laws without a silent side only. -/
theorem isLoud_of_usesFiles {native : Native} (allowed : law.native native)
    (usesFiles : native.usesFiles = true) : law.silent = none := by
  cases isSilent : law.silent with
  | none => rfl
  | some files =>
    have fileless := law.fileless files isSilent native allowed
    rw [usesFiles] at fileless
    cases fileless

/-- Every native that a law allows keeps to the law. -/
theorem call_permits {native : Native}
    (replaces : ∀ failure, Evaluator.OfReplacement failure → law.demand.fails failure)
    (nativeAllowed : law.native native) (allowed : ∀ value ∈ args, law.value within value) :
    law.Permits within (native.call args) law.value :=
  (law.manner within).call native allowed (isLoud_of_usesFiles nativeAllowed) (fun _ => trivial)
    (fun _ => replaces) fun fn isHost =>
      runHost_permits (law.hosted fn (isHost ▸ nativeAllowed)) args

end Native

end ArrowScript

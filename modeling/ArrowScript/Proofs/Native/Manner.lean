import ArrowScript.Proofs.Evaluation.Carried
import Mathlib.Data.List.InsertIdx

namespace ArrowScript

/-!
# What every native keeps

A native looks at the arrays it is given and at the text of its arguments, makes
arrays of its own and changes the world.  A manner is a property of actions that
holds of what is put together if it holds of the parts, and that holds of these
steps.  Every native has it, except that functions of the host may do anything.
-/

/-- The failure of a replacement that names an unknown group. -/
def Evaluator.OfReplacement (failure : Failure) : Prop :=
  ∃ name values before after,
    failure = .unknownGroup name ∧
      Native.replaceMatches.call values before = .error failure after

namespace Native

variable {ground : Ground} {knowledge : Knowledge}

@[simp]
theorem argument_on (args : List Value) (pos : Nat) :
    argument (args.map (·.on ground)) pos = (argument args pos).on ground := by
  simp only [argument, List.getD_eq_getElem?_getD, List.getElem?_map]
  cases args[pos]? <;> rfl

theorem argument_known {args : List Value} (known : ∀ value ∈ args, knowledge.value value)
    (pos : Nat) : knowledge.value (argument args pos) := by
  unfold argument
  rw [List.getD_eq_getElem?_getD]
  cases found : args[pos]? with
  | none => exact knowledge.plain _ rfl
  | some value => exact known value (List.mem_of_getElem? found)

theorem wholeNumbers_on (first last : Int) :
    (wholeNumbers first last).map (·.on ground) = wholeNumbers first last := by
  simp only [wholeNumbers, Array.map_map]
  rfl

theorem wholeNumbers_known (first last : Int) :
    ∀ value ∈ wholeNumbers first last, knowledge.value value := by
  intro value mem
  obtain ⟨distance, -, rfl⟩ := Array.mem_map.mp mem
  exact knowledge.plain _ rfl

theorem insertAt_on (index : Nat) (value : Value) (items : Array Value) :
    insertAt index (value.on ground) (items.map (·.on ground)) =
      (insertAt index value items).map (·.on ground) := by
  simp only [insertAt, Array.insertIdxIfInBounds, Array.size_map]
  split
  · apply Array.toList_inj.mp
    simp only [Array.toList_insertIdx, Array.toList_map, List.map_insertIdx]
  · rfl

theorem insertAt_known {inserted : Value} {items : Array Value} (index : Nat)
    (insertedKnown : knowledge.value inserted)
    (known : ∀ value ∈ items, knowledge.value value) :
    ∀ value ∈ insertAt index inserted items, knowledge.value value := by
  intro value mem
  unfold insertAt Array.insertIdxIfInBounds at mem
  split at mem
  · rcases Array.mem_insertIdx.mp mem with rfl | old
    · exact insertedKnown
    · exact known value old
  · exact known value mem

theorem eraseAt_on (index : Nat) (items : Array Value) :
    (items.map (·.on ground)).eraseIdxIfInBounds index =
      (items.eraseIdxIfInBounds index).map (·.on ground) := by
  simp only [Array.eraseIdxIfInBounds, Array.size_map]
  split
  · apply Array.toList_inj.mp
    simp only [Array.toList_eraseIdx, Array.toList_map, List.eraseIdx_map]
  · rfl

theorem eraseAt_known {items : Array Value} (index : Nat)
    (known : ∀ value ∈ items, knowledge.value value) :
    ∀ value ∈ items.eraseIdxIfInBounds index, knowledge.value value := by
  intro value mem
  unfold Array.eraseIdxIfInBounds at mem
  split at mem
  · exact known value (Array.mem_of_mem_eraseIdx mem)
  · exact known value mem

theorem stringArgument_on (native : Native) (args : List Value) (pos : Nat)
    (param : String) : stringArgument native (args.map (·.on ground)) pos param =
      stringArgument native args pos param := by
  unfold stringArgument
  rw [argument_on]
  cases argument args pos <;> rfl

theorem stringArgument_cases (native : Native) (args : List Value) (pos : Nat) (param : String) :
    (∃ text, stringArgument native args pos param = Pure.pure text) ∨
      ∃ fault, stringArgument native args pos param = refuse fault := by
  unfold stringArgument
  cases argument args pos with
  | text value => exact .inl ⟨value, rfl⟩
  | _ => exact .inr ⟨_, rfl⟩

/-- A replacement gives a text, refuses its arguments or fails on an unknown group. -/
theorem runReplaceMatches_cases (args : List Value) :
    (∃ text, runReplaceMatches args = Pure.pure (.text text)) ∨
      (∃ fault, runReplaceMatches args = refuse fault) ∨
      ∃ name, runReplaceMatches args = throw (.unknownGroup name) := by
  unfold runReplaceMatches patternArgument
  rcases stringArgument_cases .replaceMatches args 0 "string" with
    ⟨text, ran⟩ | ⟨fault, ran⟩
  swap
  · exact .inr (.inl ⟨fault, by rw [ran]; rfl⟩)
  rcases stringArgument_cases .replaceMatches args 1 "pattern" with
    ⟨pattern, patternRan⟩ | ⟨fault, patternRan⟩
  swap
  · exact .inr (.inl ⟨fault, by rw [ran, patternRan]; rfl⟩)
  simp only [ran, patternRan, pure_bind]
  cases Regex.ofText pattern.toList with
  | error error => exact .inr (.inl ⟨_, rfl⟩)
  | ok regex =>
    rcases stringArgument_cases .replaceMatches args 2 "replacement" with
      ⟨replacement, replacementRan⟩ | ⟨fault, replacementRan⟩
    swap
    · exact .inr (.inl ⟨fault, by rw [replacementRan]; rfl⟩)
    simp only [replacementRan, pure_bind]
    split
    · exact .inl ⟨_, rfl⟩
    · exact .inr (.inl ⟨_, rfl⟩)
    · exact .inr (.inr ⟨_, rfl⟩)

section

variable {Keeps : Store → Prop}

mutual

/-- What new arrays keep is kept when values of the host are settled. -/
theorem settle_keeps (newArray : ∀ store items, Keeps store → Keeps (store.newArray items).2)
    {store : Store} (kept : Keeps store) : (value : HostValue) → Keeps (value.settle store).2
  | .settled _ => kept
  | .integer _ => kept
  | .list items => newArray _ _ (settleAll_keeps newArray kept items)

theorem settleAll_keeps (newArray : ∀ store items, Keeps store → Keeps (store.newArray items).2)
    {store : Store} (kept : Keeps store) :
    (items : List HostValue) → Keeps (HostValue.settleAll store items).2
  | [] => kept
  | item :: rest => settleAll_keeps newArray (settle_keeps newArray kept item) rest

end

end

/-- A native that changes an array it is given. -/
def changesArrays : Native → Bool
  | .insert | .removeAt => true
  | _ => false

/-- A property of actions, and of actions on a ground, that the steps of natives keep. -/
structure Manner (ground : Ground)
    (knowledge : Knowledge) where
  Holds : {α : Type} → Carried α → Action α → Action α → Prop
  /-- Files are looked at and changed. -/
  usesFiles : Prop
  /-- Arrays are changed. -/
  changesArrays : Prop
  /-- Failures that are no refusals. -/
  fails : Failure → Prop
  pure {α : Type} {results : Carried α} (result : α) :
    Carried.known knowledge result →
    Holds results (Pure.pure (Carried.on result ground)) (Pure.pure result)
  bind {α β : Type} {results : Carried α} {laterResults : Carried β}
      {left right : Action α} {leftNext rightNext : α → Action β} :
    Holds results left right →
    (∀ result, Holds laterResults (leftNext (Carried.on result ground)) (rightNext result)) →
    Holds laterResults (left >>= leftNext) (right >>= rightNext)
  refuse {α : Type} {results : Carried α} (fault : NativeFault) :
    Holds results (Native.refuse fault) (Native.refuse fault)
  throw {α : Type} {results : Carried α} {failure : Failure} :
    fails failure →
    Holds results (MonadExcept.throw failure) (MonadExcept.throw failure)
  size (ref : Ref .array) :
    Holds .plain (Action.inspect fun store => (store.items (ref.on ground)).size)
      (Action.inspect fun store => (store.items ref).size)
  text (value : Value) :
    Holds .plain (Action.inspect fun store => store.text false (value.on ground))
      (Action.inspect fun store => store.text false value)
  newArray {items : Array Value} :
    Carried.known knowledge items →
    Holds .value (Native.newArray (items.map (·.on ground))) (Native.newArray items)
  changeItems (ref : Ref .array) (changeOn change : Array Value → Array Value) :
    changesArrays →
    (∀ items, changeOn (items.map (·.on ground)) = (change items).map (·.on ground)) →
    (∀ later, knowledge.Within later →
      ∀ items, Carried.known later items → Carried.known later (change items)) →
    Holds .plain (Action.change (·.modifyArray (ref.on ground) changeOn))
      (Action.change (·.modifyArray ref change))
  inspectFiles {α : Type} (look : FileTree → Path → α) :
    usesFiles →
    Holds .plain (Native.inspectFiles look) (Native.inspectFiles look)
  changeFiles (change : World → World) :
    usesFiles →
    Holds .plain (Action.changeWorld change) (Action.changeWorld change)
  writeLine (line : String) :
    Holds .plain (Action.changeWorld (·.writeLine line)) (Action.changeWorld (·.writeLine line))
  write (text : String) :
    Holds .plain (Action.changeWorld (·.write text)) (Action.changeWorld (·.write text))
  memory : Holds .plain Native.memory Native.memory
  time : Holds .value runTime runTime
  read : Holds .value runRead runRead

namespace Manner

variable (manner : Manner ground knowledge) {args : List Value}

theorem andThen {results : Carried β} {left right : Action α}
    {leftNext rightNext : α → Action β} (holds : manner.Holds .plain left right)
    (next : ∀ result, manner.Holds results (leftNext result) (rightNext result)) :
    manner.Holds results (left >>= leftNext) (right >>= rightNext) :=
  manner.bind holds next

theorem plain {value : Value} (same : value.on ground = value) (isPlain : value.isPlain = true) :
    manner.Holds .value (Pure.pure value) (Pure.pure value) := by
  have given : manner.Holds .value (Pure.pure (value.on ground)) (Pure.pure value) :=
    manner.pure value (knowledge.plain value isPlain)
  rwa [same] at given

theorem refuse_bind {results : Carried β} {fault : NativeFault}
    {leftNext rightNext : α → Action β} :
    manner.Holds results (Native.refuse fault >>= leftNext) (Native.refuse fault >>= rightNext) :=
  manner.refuse fault

variable {native : Native} {pos : Nat} {param : String}

theorem stringArgument :
    manner.Holds .plain (stringArgument native (args.map (·.on ground)) pos param)
      (stringArgument native args pos param) := by
  rw [stringArgument_on]
  rcases stringArgument_cases native args pos param with ⟨text, ran⟩ | ⟨fault, ran⟩
  · rw [ran]
    exact manner.pure text trivial
  · rw [ran]
    exact manner.refuse fault

theorem numberArgument :
    manner.Holds .plain (numberArgument native (args.map (·.on ground)) pos param)
      (numberArgument native args pos param) := by
  unfold Native.numberArgument
  rw [argument_on]
  cases argument args pos with
  | number value => exact manner.pure value trivial
  | _ => exact manner.refuse _

theorem arrayArgument :
    manner.Holds inferInstance
      (arrayArgument native (args.map (·.on ground)) pos param)
      (arrayArgument native args pos param) := by
  unfold Native.arrayArgument
  rw [argument_on]
  cases argument args pos with
  | array ref => exact manner.pure ref trivial
  | _ => exact manner.refuse _

theorem integerPart (value : Float) :
    manner.Holds .plain (integerPart value) (integerPart value) := by
  unfold Native.integerPart
  split
  · exact manner.pure _ trivial
  · exact manner.refuse _

theorem indexArgument :
    manner.Holds .plain (indexArgument native (args.map (·.on ground)))
      (indexArgument native args) := by
  apply manner.andThen manner.numberArgument
  intro index
  simp only
  split
  · exact manner.refuse_bind
  · exact manner.integerPart index

theorem patternArgument :
    manner.Holds .plain (patternArgument native (args.map (·.on ground)) pos)
      (patternArgument native args pos) := by
  apply manner.andThen manner.stringArgument
  intro text
  split
  · exact manner.pure _ trivial
  · exact manner.refuse _

theorem textArgument : manner.Holds .plain (Action.inspect fun store =>
        store.text false (argument (args.map (·.on ground)) pos))
      (Action.inspect fun store => store.text false (argument args pos)) := by
  rw [argument_on]
  exact manner.text _

theorem newTexts (texts : List (List Char)) :
    manner.Holds .value (newTexts texts) (newTexts texts) := by
  have known : ∀ value ∈ (texts.map fun text => Value.text (String.ofList text)).toArray,
      knowledge.value value := by
    intro value mem
    obtain ⟨text, -, rfl⟩ := List.mem_map.mp (List.mem_toArray.mp mem)
    exact knowledge.plain _ rfl
  have made := manner.newArray known
  simp only [List.map_toArray, List.map_map] at made
  exact made

theorem newNumbers (first last : Int) :
    manner.Holds .value (Native.newArray (wholeNumbers first last))
      (Native.newArray (wholeNumbers first last)) := by
  have made := manner.newArray (wholeNumbers_known first last)
  rwa [wholeNumbers_on] at made

/-- What is done with arguments has the manner. -/
abbrev Runs (run : List Value → Action Value) (args : List Value) : Prop :=
  manner.Holds .value (run (args.map (·.on ground))) (run args)

theorem runParseNumber : manner.Runs runParseNumber args := by
  apply manner.andThen manner.stringArgument
  intro text
  split
  · exact manner.plain rfl rfl
  · split <;> exact manner.plain rfl rfl

theorem runLength : manner.Runs runLength args := by
  unfold Runs Native.runLength
  rw [argument_on]
  cases argument args 0 with
  | text value => exact manner.plain rfl rfl
  | array ref => exact manner.andThen (manner.size ref) fun _ => manner.plain rfl rfl
  | _ => exact manner.refuse _

theorem runFillArray : manner.Runs runFillArray args := by
  apply manner.andThen manner.numberArgument
  intro size
  simp only
  split
  · exact manner.refuse_bind
  apply manner.andThen (manner.integerPart size)
  intro whole
  split
  · exact manner.refuse_bind
  apply manner.andThen manner.memory
  intro room
  split
  · exact manner.refuse_bind
  have known : ∀ value ∈ Array.replicate whole.toNat Value.null, knowledge.value value := by
    intro value mem
    rw [(Array.mem_replicate.mp mem).2]
    exact knowledge.plain _ rfl
  have made := manner.newArray known
  rw [Array.map_replicate] at made
  exact made

theorem runInsert (known : ∀ value ∈ args, knowledge.value value)
    (changes : manner.changesArrays) : manner.Runs runInsert args := by
  apply manner.bind manner.arrayArgument
  intro ref
  apply manner.andThen manner.indexArgument
  intro index
  apply manner.andThen (manner.size ref)
  intro size
  simp only
  split
  · exact manner.refuse_bind
  rw [argument_on]
  have changed :=
    manner.changeItems ref _ _ changes (insertAt_on index.toNat (argument args 2))
      fun _ within _ => insertAt_known index.toNat (within.value _ (argument_known known 2))
  exact manner.andThen changed fun _ => manner.plain rfl rfl

theorem runRemoveAt (changes : manner.changesArrays) : manner.Runs runRemoveAt args := by
  apply manner.bind manner.arrayArgument
  intro ref
  apply manner.andThen manner.indexArgument
  intro index
  apply manner.andThen (manner.size ref)
  intro size
  simp only
  split
  · exact manner.refuse_bind
  have changed :=
    manner.changeItems ref (·.eraseIdxIfInBounds index.toNat) (·.eraseIdxIfInBounds index.toNat)
      changes (eraseAt_on index.toNat) fun _ _ _ => eraseAt_known index.toNat
  exact manner.andThen changed fun _ => manner.plain rfl rfl

theorem runRange : manner.Runs runRange args := by
  apply manner.andThen manner.numberArgument
  intro first
  apply manner.andThen manner.numberArgument
  intro last
  apply manner.andThen (manner.integerPart first)
  intro firstWhole
  exact manner.andThen (manner.integerPart last) fun _ => manner.newNumbers _ _

theorem runRangeTo : manner.Runs runRangeTo args := by
  apply manner.andThen manner.numberArgument
  intro last
  exact manner.andThen (manner.integerPart last) fun _ => manner.newNumbers _ _

theorem runReplace : manner.Runs runReplace args := by
  apply manner.andThen manner.stringArgument
  intro text
  apply manner.andThen manner.stringArgument
  intro word
  exact manner.andThen manner.stringArgument fun _ => manner.plain rfl rfl

theorem runSplit : manner.Runs runSplit args := by
  apply manner.andThen manner.stringArgument
  intro text
  apply manner.andThen manner.stringArgument
  intro delimiter
  split
  · exact manner.refuse _
  · exact manner.newTexts _

theorem runChoose (known : ∀ value ∈ args, knowledge.value value) :
    manner.Runs runChoose args := by
  unfold Runs Native.runChoose
  simp only [argument_on, Value.isTrue_on]
  exact manner.pure _ (argument_known known _)

theorem runRemainder : manner.Runs runRemainder args := by
  apply manner.andThen manner.numberArgument
  intro dividend
  apply manner.andThen manner.numberArgument
  intro divisor
  simp only
  split
  · exact manner.refuse_bind
  split
  · exact manner.plain rfl rfl
  · exact manner.refuse _

theorem runPrint : manner.Runs runPrint args := by
  apply manner.andThen manner.textArgument
  intro text
  exact manner.andThen (manner.writeLine text) fun _ => manner.plain rfl rfl

theorem runWrite : manner.Runs runWrite args := by
  apply manner.andThen manner.textArgument
  intro text
  exact manner.andThen (manner.write text) fun _ => manner.plain rfl rfl

theorem runWait : manner.Runs runWait args := by
  apply manner.andThen manner.numberArgument
  intro seconds
  simp only
  split
  · exact manner.refuse_bind
  split
  · exact manner.refuse_bind
  split
  · exact manner.refuse_bind
  · exact manner.plain rfl rfl

theorem runText : manner.Runs runText args :=
  manner.andThen manner.textArgument fun _ => manner.plain rfl rfl

theorem runTypeName : manner.Runs runTypeName args := by
  unfold Runs Native.runTypeName
  rw [argument_on, Value.typeName_on]
  exact manner.plain rfl rfl

section

variable (uses : manner.usesFiles)

include uses

theorem runReadFile : manner.Runs runReadFile args := by
  apply manner.andThen manner.stringArgument
  intro path
  apply manner.andThen (manner.inspectFiles _ uses)
  intro outcome
  split
  · exact manner.plain rfl rfl
  all_goals exact manner.refuse _

theorem runWriteFile : manner.Runs runWriteFile args := by
  apply manner.andThen manner.stringArgument
  intro path
  apply manner.andThen manner.stringArgument
  intro data
  apply manner.andThen (manner.inspectFiles _ uses)
  intro outcome
  split
  · exact manner.andThen (manner.changeFiles _ uses) fun _ => manner.plain rfl rfl
  all_goals exact manner.refuse _

theorem runDeleteFile : manner.Runs runDeleteFile args := by
  apply manner.andThen manner.stringArgument
  intro path
  apply manner.andThen (manner.inspectFiles _ uses)
  intro outcome
  split
  · exact manner.andThen (manner.changeFiles _ uses) fun _ => manner.plain rfl rfl
  · exact manner.refuse _

theorem runDeleteDirectory : manner.Runs runDeleteDirectory args := by
  apply manner.andThen manner.stringArgument
  intro path
  apply manner.andThen (manner.inspectFiles _ uses)
  intro outcome
  apply manner.andThen (manner.changeFiles _ uses)
  intro _
  split
  · exact manner.plain rfl rfl
  all_goals exact manner.refuse _

theorem runMakeDirectory : manner.Runs runMakeDirectory args := by
  apply manner.andThen manner.stringArgument
  intro path
  apply manner.andThen (manner.inspectFiles _ uses)
  intro outcome
  apply manner.andThen (manner.changeFiles _ uses)
  intro _
  split
  · exact manner.plain rfl rfl
  all_goals exact manner.refuse _

theorem runListFiles : manner.Runs runListFiles args := by
  apply manner.andThen manner.stringArgument
  intro path
  apply manner.andThen (manner.inspectFiles _ uses)
  intro outcome
  split
  · exact manner.newTexts _
  all_goals exact manner.refuse _

end

theorem runMatchFirst : manner.Runs runMatchFirst args := by
  apply manner.andThen manner.stringArgument
  intro text
  exact manner.andThen manner.patternArgument fun _ => manner.plain rfl rfl

theorem runMatchAll : manner.Runs runMatchAll args := by
  apply manner.andThen manner.stringArgument
  intro text
  exact manner.andThen manner.patternArgument fun _ => manner.newTexts _

theorem runReplaceMatches
    (replaces : ∀ failure, Evaluator.OfReplacement failure → manner.fails failure) :
    manner.Runs runReplaceMatches args := by
  have same : Native.runReplaceMatches (args.map (·.on ground)) =
      Native.runReplaceMatches args := by
    simp only [Native.runReplaceMatches, Native.patternArgument, stringArgument_on]
  unfold Runs
  rw [same]
  rcases runReplaceMatches_cases args with ⟨text, ran⟩ | ⟨fault, ran⟩ | ⟨name, ran⟩
  all_goals rw [ran]
  · exact manner.plain rfl rfl
  · exact manner.refuse fault
  · exact manner.throw (replaces _ ⟨name, args, {}, {}, rfl, congrFun ran {}⟩)

/-- Every native has a manner, if the function of the host has it that the native may be. -/
theorem call (native : Native) (known : ∀ value ∈ args, knowledge.value value)
    (uses : native.usesFiles = true → manner.usesFiles)
    (changes : native.changesArrays = true → manner.changesArrays)
    (replaces : native = .replaceMatches →
      ∀ failure, Evaluator.OfReplacement failure → manner.fails failure)
    (hosts : ∀ fn, native = .host fn → manner.Holds .value
      (runHost (fn.on ground) (args.map (·.on ground))) (runHost fn args)) :
    manner.Holds .value
      ((native.on ground).call (args.map (·.on ground))) (native.call args) := by
  cases native with
  | time => exact manner.time
  | print => exact manner.runPrint
  | write => exact manner.runWrite
  | read => exact manner.read
  | parseNumber => exact manner.runParseNumber
  | wait => exact manner.runWait
  | length => exact manner.runLength
  | fillArray => exact manner.runFillArray
  | insert => exact manner.runInsert known (changes rfl)
  | removeAt => exact manner.runRemoveAt (changes rfl)
  | range => exact manner.runRange
  | rangeTo => exact manner.runRangeTo
  | replace => exact manner.runReplace
  | split => exact manner.runSplit
  | choose => exact manner.runChoose known
  | remainder => exact manner.runRemainder
  | text => exact manner.runText
  | typeName => exact manner.runTypeName
  | readFile => exact manner.runReadFile (uses rfl)
  | writeFile => exact manner.runWriteFile (uses rfl)
  | deleteFile => exact manner.runDeleteFile (uses rfl)
  | deleteDirectory => exact manner.runDeleteDirectory (uses rfl)
  | makeDirectory => exact manner.runMakeDirectory (uses rfl)
  | listFiles => exact manner.runListFiles (uses rfl)
  | matchFirst => exact manner.runMatchFirst
  | matchAll => exact manner.runMatchAll
  | replaceMatches => exact manner.runReplaceMatches (replaces rfl)
  | host fn => exact hosts fn rfl

end Manner

end Native

end ArrowScript

import ArrowScript.Proofs.Evaluation.Safety
import ArrowScript.Proofs.Scope.Lexical

namespace ArrowScript

/-!
# Traces only observe

A run with a trace does what the run without it does.  The trace goes to a file,
so the two can differ only where a program looks at files.  A guard stops a run
that is about to do so: it lets no import of a file pass, nor one of the natives
for files.  Under the guard the two runs go side by side.  If the guard stops
nothing in the traced run, they are the runs of the program.
-/

variable {actual : Evaluator}

/-- Whether an import of a name that is no group finds a file. -/
def Machine.findsFile (machine : Machine) (name : String) : Bool :=
  (machine.pathOf name).any (machine.world.files.isFile machine.world.directory)

/-- A task that imports neither a file nor the natives for files. -/
def Visit.LeavesFiles (visit : Visit) : Prop :=
  ∀ keyword path,
    visit.task = .execute (.use keyword path) →
    path.textValue ≠ "IO" ∧
      (visit.machine.registry.group? path.textValue = none →
        visit.machine.findsFile path.textValue = false)

/-- No natives for files, beside a silent machine that has other files. -/
def Law.observed (files : FileTree) : Law where
  value _ _ := True
  native each := each.usesFiles = false
  functions _ := True
  registry known := known = .standard
  sources _ := True
  silent := some files
  plain _ _ _ := trivial
  array _ _ _ := trivial
  object _ _ _ := trivial
  later _ _ _ _ _ := trivial
  registered := by
    rintro known rfl
    simp [Registry.standard, Native.usesFiles]
  hosted _ _ _ _ := trivial
  fileless _ _ _ isFileless := isFileless

section

variable {files : FileTree} {machine : Machine}

/-- The silent machine has no file that the traced one has not. -/
theorem findsFile_twin {name : String} (allows : (Law.observed files).Allows machine)
    (absent : machine.findsFile name = false) :
    ((Law.observed files).twin machine).findsFile name = false := by
  have stands := (allows.traces files rfl).stands
  unfold Machine.findsFile Machine.pathOf at absent ⊢
  rw [Law.directory_twin]
  generalize Path.absolute? machine.world.directory name = named at absent
  cases named with
  | none => rfl
  | some path =>
    rw [Option.any_some, ← Bool.not_eq_true] at absent ⊢
    exact fun found => absent (stands.isFile found)

theorem Visit.LeavesFiles.twin {visit : Visit} (leaves : visit.LeavesFiles)
    (allows : (Law.observed files).Allows visit.machine) :
    Visit.LeavesFiles ⟨visit.frame, visit.task, (Law.observed files).twin visit.machine⟩ := by
  intro keyword path isUse
  obtain ⟨notFiles, absent⟩ := leaves keyword path isUse
  refine ⟨notFiles, fun noGroup => ?_⟩
  rw [Law.registry_twin] at noGroup
  exact findsFile_twin allows (absent noGroup)

variable {name : String}

theorem usesFiles_of_group {natives : List Native} (notFiles : name ≠ "IO")
    (isGroup : Registry.standard.group? name = some natives) :
    ∀ native ∈ natives, native.usesFiles = false := by
  rcases Registry.group?_standard isGroup with ⟨rfl, rfl⟩ | ⟨rfl, rfl⟩
  · exact (notFiles rfl).elim
  · simp [Native.usesFiles]

/-- A file that is not there is not found, alike on both machines. -/
theorem findFile_observed {place : Token}
    (absent : machine.findsFile name = false) :
    ObeysAt (Law.observed files) actual (fun _ => Evaluator.findFile place name)
      (fun _ _ => False) machine := by
  intro allows
  refine Obeys.bindAt (Evaluator.absolutePath_obeys (.inl (Demand.nothing_fails _))) ?_ allows
  intro path after ran _ isPath
  rw [Evaluator.absolutePath_eq, isPath] at ran
  cases ran
  have isAbsent {machine : Machine} (isPath : machine.pathOf name = some path)
      (absent : machine.findsFile name = false) :
      machine.world.files.isFile machine.world.directory path = false := by
    simpa [Machine.findsFile, isPath] using absent
  have looked : (Law.observed files).PermitsAt
      (Native.inspectFiles fun files dir => files.isFile dir path)
      (fun _ isFile => isFile = false) machine := by
    have silentPath : ((Law.observed files).twin machine).pathOf name = some path := by
      rw [← isPath]
      unfold Machine.pathOf
      rw [Law.directory_twin]
    have silentAbsent := isAbsent silentPath (findsFile_twin allows absent)
    exact Law.permitsAt_look (silentAbsent.trans (isAbsent isPath absent).symm)
      (isAbsent isPath absent)
  apply Obeys.bindAt (Obeys.aloneAt looked)
  rintro isFile after ran - rfl
  exact Obeys.raiseAt_bind trivial after (.refl _)

theorem use_observed {frame : Frame} {path : Token}
    (notFiles : path.textValue ≠ "IO") (absent :
      machine.registry.group? path.textValue = none → machine.findsFile path.textValue = false) :
    ObeysAt (Law.observed files) actual (·.use frame path) (fun _ _ => True) machine := by
  intro allows
  have isStandard : machine.registry = .standard := allows.registry
  cases isGroup : machine.registry.group? path.textValue with
  | some natives =>
    have listed : Registry.standard.group? path.textValue = some natives := isStandard ▸ isGroup
    exact Evaluator.useGroup_obeys isGroup (usesFiles_of_group notFiles listed) allows
  | none =>
    refine Evaluator.useAbsent_obeys isGroup ?_ allows
    exact Obeys.bindAt (findFile_observed (absent isGroup)) fun _ _ _ _ isFound => isFound.elim

end

open Classical in
/-- Guarded runs go alike with the trace and without. -/
theorem evaluatorWithin_observed (files : FileTree) (depth : Nat) :
    (Law.observed files).Governs (evaluatorWithin Visit.LeavesFiles depth) := by
  apply evaluatorWithin_governs
  · exact fun visit allows leaves => leaves.twin allows
  · exact fun _ _ => trivial
  · exact fun _ _ _ _ _ failure _ => Demand.nothing_fails failure
  · intro actual visit keyword path _ leaves isUse
    obtain ⟨notFiles, absent⟩ := leaves keyword path isUse
    exact use_observed notFiles absent

section

variable {machine : Machine} {level : Nat}

/-- Without the trace and its file it is the machine that starts without a trace. -/
theorem Machine.hushed_startTrace (machine : Machine) (level : Nat) :
    (machine.startTrace level).hushed machine.world.files = machine.startTrace 0 := by
  unfold startTrace
  split
  · rfl
  · split <;> rfl

theorem Machine.traces_startTrace (isOpen : (machine.startTrace level).trace.file.isSome) :
    (machine.startTrace level).Traces machine.world.files := by
  refine ⟨isOpen, ?_⟩
  unfold startTrace
  split
  · exact .refl _
  · split
    · exact .refl _
    · rename_i files written
      exact FileTree.standsIn_of_writeText written

theorem Machine.store_startTrace (machine : Machine) (level : Nat) :
    (machine.startTrace level).store = machine.store := by
  unfold startTrace
  split
  · rfl
  · split <;> rfl

theorem Machine.registry_startTrace (machine : Machine) (level : Nat) :
    (machine.startTrace level).registry = machine.registry := by
  unfold startTrace
  split
  · rfl
  · split <;> rfl

theorem runFresh_obeys {law : Law} (governs : law.Governs actual)
    (numbered : ∀ count, law.sources count → law.sources (count + 1)) (text : String)
    (machine : Machine) : ObeysAt law actual (·.runFresh text) (fun _ _ => True) machine :=
  Obeys.behind Evaluator.newRoot_permits
    (fun _ _ scope _ => Evaluator.runSource_obeys governs numbered scope text) machine (.refl _)

theorem runFresh_attended {depth : Nat} (text : String) (machine : Machine) :
    ∃ visits, Attends (evaluator depth) (·.runFresh text) machine visits := by
  cases ran : Session.newRoot machine with
  | error failure opened => cases ran
  | ok scope opened =>
    obtain ⟨visits, attends⟩ := runSource_attended scope text opened
    exact ⟨_, (Attends.alone Session.newRoot).bind_of_ok ran attends⟩

/-- A run never comes to a branch that does not exist. -/
theorem runFresh_possible {depth : Nat} {text : String} {machine final : Machine}
    (isFresh : machine.store = .empty) :
    (evaluator depth).runFresh text machine ≠ .error .unexpectedNode final := by
  intro failed
  have reached : Session.Reached machine := .fresh isFresh
  obtain ⟨_, -, -, ends⟩ :=
    runFresh_obeys (evaluator_governs Law.safe_isLoud depth) (fun _ _ => trivial) text machine
      reached.allows
  exact Law.possible_of_safe (ends.fails _ _ failed)

/--
A trace only observes.  A program that imports neither a file nor the natives for
files ends in the same way with a trace of any level, whose file can be opened, and
without a trace: with the same result or failure, the same output and the same
store.  All that the trace leaves behind is its file.
-/
theorem trace_only_observes
    {machine : Machine}
    {depth level : Nat}
    {text : String}
    (isFresh : machine.store = .empty)
    (isStandard : machine.registry = .standard)
    (isOpen : (machine.startTrace level).trace.file.isSome)
    (apart :
      ∀ below visit,
        Visited depth (·.runFresh text) (machine.startTrace level) below visit →
        visit.LeavesFiles) :
    (evaluator depth).runFresh text (machine.startTrace 0) =
      Action.mapAfter (·.hushed machine.world.files)
        ((evaluator depth).runFresh text (machine.startTrace level)) := by
  classical
  let law := Law.observed machine.world.files
  let traced := machine.startTrace level
  have silent : law.twin traced = machine.startTrace 0 := machine.hushed_startTrace level
  have allows : law.Allows traced := by
    refine ⟨?_, ?_, trivial, ?_⟩
    · rw [machine.store_startTrace, isFresh]
      exact .empty trivial
    · exact (machine.registry_startTrace level).trans isStandard
    · rintro files ⟨⟩
      exact Machine.traces_startTrace isOpen
  have stillFresh : traced.store = .empty := (machine.store_startTrace level).trans isFresh
  have obeys :=
    runFresh_obeys (evaluatorWithin_observed machine.world.files depth) (fun _ _ => trivial) text
      traced
  have alike :=
    run_twin_of_passes apart (runFresh_attended text) (fun _ => runFresh_possible stillFresh) obeys
      allows
  rw [silent] at alike
  exact alike

/-- A task that imports a group of natives, but not that for files, or imports nothing. -/
def Visit.usesNatives (visit : Visit) : Bool :=
  match visit.task with
  | .execute (.use _ path) =>
    path.textValue != "IO" && (visit.machine.registry.group? path.textValue).isSome
  | _ => true

/-- A program with a function, a loop and an import of natives, under a full trace. -/
theorem trace_only_observes_loop_over_array :
    let text :=
      "use \"Regex\"\nfn @twice a => a + a -> break\n[1, 2] -> var xs\neach x: xs \x7b @print @twice x \x7d"
    let traced := Machine.startTrace {} 3
    let ended := (evaluator 12).runFresh text traced
    traced.trace.file.isSome ∧
      (∀ below visit,
        Visited 12 (·.runFresh text) traced below visit →
        visit.LeavesFiles) ∧
      (Action.after ended).world.output = "2\n4\n" ∧
      (evaluator 12).runFresh text (Machine.startTrace {} 0) =
        Action.mapAfter (·.hushed ({} : Machine).world.files) ended := by
  intro text traced ended
  have isOpen : traced.trace.file.isSome := by decide +kernel
  have isSoft : Action.IsSoft
      ((evaluatorWithin (·.usesNatives = true) 12).runFresh text traced) := by
    intro failure final failed
    have guarded : Action.failure?
        ((evaluatorWithin (·.usesNatives = true) 12).runFresh text traced) = none := by
      decide +kernel
    rw [failed] at guarded
    cases guarded
  have apart : ∀ below visit,
      Visited 12 (·.runFresh text) traced below visit → visit.LeavesFiles := by
    intro below visit visited keyword path isUse
    obtain ⟨_, attends⟩ := runFresh_attended text traced
    have passes := visited.passes attends isSoft
    simp only [Visit.usesNatives, isUse, Bool.and_eq_true, bne_iff_ne] at passes
    exact ⟨passes.1, fun noGroup => by simp [noGroup] at passes⟩
  have printed : (Action.after ended).world.output = "2\n4\n" := by decide +kernel
  exact ⟨isOpen, apart, printed, trace_only_observes rfl rfl isOpen apart⟩

end

end ArrowScript

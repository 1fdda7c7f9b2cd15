import Mathlib.Data.Set.Card
import ArrowScript.Proofs.Files.Absolute
import ArrowScript.Proofs.Scope.Lexical

namespace ArrowScript

/-!
# Imports that go on

A file is being imported from the moment at which its program starts until the
program has ended, in whatever way.  A machine holds the absolute path texts of the
files that are being imported: exactly these, each of them once.  So imports are
nested at most as deep as there are path texts that are imported.

A file has two absolute path texts, so it can be imported inside its own import
once, under the other text, and no second time.
-/

/-- The file that a task imports, if it is an import and not one of natives. -/
def Visit.imports (visit : Visit) : List String :=
  match visit.task with
  | .execute (.use _ path) =>
    match visit.machine.registry.group? path.textValue with
    | some _ => []
    | none => (visit.machine.pathOf path.textValue).toList
  | _ => []

theorem Visit.imports_nodup (visit : Visit) : visit.imports.Nodup := by
  unfold imports
  split
  · split
    · simp
    · cases visit.machine.pathOf _ <;> simp
  · simp

/-- A file that a task imports is at most known under two path texts. -/
theorem Visit.shown_of_mem_imports {visit : Visit} {path : String} (mem : path ∈ visit.imports)
    {files : FileTree} {here place : Path} (leads : files.filePlace? here path = some place) :
    path = place.shown ∨ path = "/" ++ place.shown := by
  unfold imports at mem
  split at mem
  · split at mem
    · cases mem
    · exact FileTree.absolute?_of_filePlace? (Option.mem_toList.mp mem) leads
  · cases mem

/--
The visits of a run, each with the imports inside which it lies: whatever the
task of an import hands over belongs to the program of the file.  The latest one
comes first.
-/
inductive VisitedDuring {α : Type} (depth : Nat) (code : Evaluator → Action α)
    (machine : Machine) :
    Nat → Visit → List String → Prop
  | first {visit : Visit} : Calls (evaluator depth) code machine visit →
      VisitedDuring depth code machine depth visit []
  | next {level : Nat} {outer inner : Visit} {paths : List String} :
      VisitedDuring depth code machine (level + 1) outer paths →
      Calls (evaluator level) (·.step outer.frame outer.task) outer.machine inner →
      VisitedDuring depth code machine level inner (outer.imports ++ paths)

/-- A file is imported in a run: a task that imports it gets to run its program. -/
def ImportedIn (depth : Nat) (code : Evaluator → Action α) (machine : Machine)
    (path : String) : Prop :=
  ∃ level outer inner,
    Visited depth code machine (level + 1) outer ∧
      path ∈ outer.imports ∧
      Calls (evaluator level) (·.step outer.frame outer.task) outer.machine inner

section

variable {α : Type} {depth level : Nat} {code : Evaluator → Action α} {machine : Machine}
  {visit : Visit} {paths : List String}

theorem Visited.exists_during (visited : Visited depth code machine level visit) :
    ∃ paths, VisitedDuring depth code machine level visit paths := by
  induction visited with
  | first calls => exact ⟨[], .first calls⟩
  | next _ calls ih =>
    obtain ⟨paths, during⟩ := ih
    exact ⟨_, .next during calls⟩

theorem VisitedDuring.visited (during : VisitedDuring depth code machine level visit paths) :
    Visited depth code machine level visit := by
  induction during with
  | first calls => exact .first calls
  | next _ calls ih => exact .next ih calls

theorem VisitedDuring.importedIn (during : VisitedDuring depth code machine level visit paths) :
    ∀ path ∈ paths, ImportedIn depth code machine path := by
  induction during with
  | first calls => simp
  | next outerDuring calls ih =>
    have imported := fun path mem =>
      (⟨_, _, _, outerDuring.visited, mem, calls⟩ : ImportedIn depth code machine path)
    exact List.forall_mem_append.mpr ⟨imported, ih⟩

/-- A task hands over tasks with its own imports added to those going on, and it adds a new one. -/
theorem Calls.importing {outer inner : Visit}
    (calls : Calls (evaluator level) (·.step outer.frame outer.task) outer.machine inner) :
    inner.machine.importing = outer.imports ++ outer.machine.importing ∧
      ∀ path ∈ outer.imports, path ∉ outer.machine.importing := by
  obtain ⟨frame, task, machine⟩ := outer
  by_cases isUse : ∃ keyword path, task = .execute (.use keyword path)
  · obtain ⟨keyword, path, rfl⟩ := isUse
    cases isGroup : machine.registry.group? path.textValue with
    | some natives =>
      obtain ⟨other, -, -, differs⟩ := calls
      refine (differs ?_).elim
      simp [Evaluator.step, Evaluator.executeStatement, Evaluator.use_eq, isGroup, bind,
        EStateM.bind]
    | none =>
      obtain ⟨-, file, isPath, notImporting, isMarked⟩ :=
        (Evaluator.useStep_keeps (evaluator_steady level) frame keyword path machine).enters calls
      simp only [Visit.imports, isGroup, Option.mem_def.mp isPath, Option.toList_some]
      exact ⟨isMarked, by simpa using notImporting⟩
  · have notUse : ∀ keyword path, task ≠ .execute (.use keyword path) :=
      fun keyword path same => isUse ⟨keyword, path, same⟩
    have noImport : (⟨frame, task, machine⟩ : Visit).imports = [] := by
      unfold Visit.imports
      split
      · rename_i same
        exact (notUse _ _ same).elim
      · rfl
    have entered :=
      (Evaluator.ownStep_keeps (evaluator_steady level) frame notUse machine).enters calls
    rw [noImport]
    exact ⟨entered.2.importing, by simp⟩

/-- The imports inside which a visit lies are those that a run has added, none of them twice. -/
theorem VisitedDuring.importing (starts : ∀ visit, Calls (evaluator depth) code machine visit →
      visit.machine.importing = machine.importing)
    (during : VisitedDuring depth code machine level visit paths) :
    visit.machine.importing = paths ++ machine.importing ∧
      (∀ path ∈ paths, path ∉ machine.importing) ∧ paths.Nodup := by
  induction during with
  | first calls => exact ⟨starts _ calls, by simp, .nil⟩
  | @next level outer inner paths _ calls ih =>
    obtain ⟨importing, apart, nodup⟩ := ih
    obtain ⟨innerImporting, added⟩ := calls.importing
    rw [importing] at innerImporting added
    refine ⟨?_, ?_, ?_⟩
    · rw [innerImporting, List.append_assoc]
    · have addedApart := fun path mem goesOn =>
        added path mem (List.mem_append_right paths goesOn)
      exact List.forall_mem_append.mpr ⟨addedApart, apart⟩
    · refine List.nodup_append.mpr ⟨outer.imports_nodup, nodup, ?_⟩
      rintro path mem _ goesOn rfl
      exact added path mem (List.mem_append_left _ goesOn)

/-- The imports of one file inside which a visit lies have two path texts, each of them once. -/
theorem VisitedDuring.shown (during : VisitedDuring depth code machine level visit paths)
    (nodup : paths.Nodup) (files : FileTree) (here place : Path) :
    (∀ path ∈ paths, files.filePlace? here path = some place →
        path = place.shown ∨ path = "/" ++ place.shown) ∧
      (paths.filter (files.filePlace? here · = some place)).length ≤ 2 := by
  have texts : ∀ path ∈ paths, files.filePlace? here path = some place →
      path = place.shown ∨ path = "/" ++ place.shown := by
    intro path mem leads
    obtain ⟨_, outer, _, -, imported, -⟩ := during.importedIn path mem
    exact Visit.shown_of_mem_imports imported leads
  refine ⟨texts, ?_⟩
  have inside : paths.filter (files.filePlace? here · = some place) ⊆
      [place.shown, "/" ++ place.shown] := by
    intro path mem
    obtain ⟨isIn, leads⟩ := List.mem_filter.mp mem
    simpa using texts path isIn (of_decide_eq_true leads)
  exact ((nodup.filter _).subperm inside).length_le

/-- The imports inside which a visit lies are among the files that are imported, each once. -/
theorem VisitedDuring.length_le_encard (during : VisitedDuring depth code machine level visit paths)
    (nodup : paths.Nodup) :
    (paths.length : ℕ∞) ≤ {path | ImportedIn depth code machine path}.encard := by
  have inside : (paths.toFinset : Set String) ⊆ {path | ImportedIn depth code machine path} := by
    intro path mem
    exact during.importedIn path (List.mem_toFinset.mp mem)
  calc (paths.length : ℕ∞)
      = paths.toFinset.card := by rw [List.toFinset_card_of_nodup nodup]
    _ = (paths.toFinset : Set String).encard := (Set.encard_coe_eq_coe_finsetCard _).symm
    _ ≤ {path | ImportedIn depth code machine path}.encard := Set.encard_le_encard inside

end

/--
At every moment of a run the imports that go on are those that went on when the
run started and the imports inside which the moment lies, each path text once and
no more than there are path texts imported.  Those that lead to one file are at
most two: the path of the file with one slash in front, and with two.  The imports
that go on are the same again when a task ends, an import among others, however it
ends.
-/
theorem importing_eq_imports_in_progress
    (depth : Nat)
    (scope : Ref .scope)
    (text : String)
    (machine : Machine) :
    (∀ level visit,
      Visited depth (·.runSource scope text) machine level visit →
      (∃ paths, VisitedDuring depth (·.runSource scope text) machine level visit paths) ∧
        ∀ paths,
          VisitedDuring depth (·.runSource scope text) machine level visit paths →
          visit.machine.importing = paths ++ machine.importing ∧
            (∀ path ∈ paths, path ∉ machine.importing) ∧
            paths.Nodup ∧
            (paths.length : ℕ∞) ≤
              {path | ImportedIn depth (·.runSource scope text) machine path}.encard ∧
            ∀ (files : FileTree) (here place : Path),
              (∀ path ∈ paths,
                files.filePlace? here path = some place →
                path = place.shown ∨ path = "/" ++ place.shown) ∧
              (paths.filter (files.filePlace? here · = some place)).length ≤ 2) ∧
      (∀ level visit,
        (Action.after ((evaluator level).answer visit)).importing = visit.machine.importing) ∧
      (∀ level frame path (start : Machine),
        (Action.after ((evaluator level).use frame path start)).importing = start.importing) ∧
      (Action.after ((evaluator depth).runSource scope text machine)).importing =
        machine.importing := by
  have keeps := Evaluator.runSource_keeps (evaluator_steady depth) scope text machine
  have starts : ∀ visit, Calls (evaluator depth) (·.runSource scope text) machine visit →
      visit.machine.importing = machine.importing :=
    fun visit calls => (keeps.enters calls).2.importing
  refine ⟨?_, ?_, ?_, keeps.edits.importing⟩
  · refine fun level visit visited => ⟨visited.exists_during, fun paths during => ?_⟩
    obtain ⟨importing, apart, nodup⟩ := during.importing starts
    exact ⟨importing, apart, nodup, during.length_le_encard nodup, during.shown nodup⟩
  · exact fun level visit => (evaluator_edits level visit).importing
  · intro level frame path start
    have keeps : KeepsAt none _ (.importing frame [.use path] _) (·.use frame path) start :=
      Evaluator.use_keeps (evaluator_steady level) List.mem_cons_self start
    exact keeps.edits.importing

section

variable {text : String} {stmt : Stmt} {rest : List Stmt} {frame : Frame} {machine : Machine}

theorem calls_runSource (evaluator : Evaluator) {scope : Ref .scope}
    (valid : (read text).valid = true) (stmts : (read text).statements = stmt :: rest)
    (silent : machine.trace.level = 0) :
    Calls evaluator (·.runSource scope text) machine
      ⟨⟨scope, machine.sources⟩, .execute stmt,
      { machine with sources := machine.sources + 1 }⟩ := by
  apply Calls.of_failures { machine with sources := machine.sources + 1 }
  intro failure isHard
  have numbered : Evaluator.newSource machine =
      .ok machine.sources { machine with sources := machine.sources + 1 } :=
    rfl
  rw [Evaluator.runSource_eq, Action.bind_of_ok numbered]
  exact evaluator.runNumbered_failingAt valid stmts silent isHard

theorem findFile_of_reads {place : Token} {name file : String}
    (isPath : machine.pathOf name = some file)
    (isFile : machine.world.files.isFile machine.world.directory file = true)
    (isNew : file ∉ machine.importing)
    (reads : machine.world.files.readText machine.world.directory file = .ok text)
    (silent : machine.trace.level = 0) :
    Evaluator.findFile place name machine = .ok (file, text) machine := by
  unfold Evaluator.findFile
  refine Action.bind_eq_ok.mpr ⟨file, machine, by rw [Evaluator.absolutePath_eq, isPath], ?_⟩
  refine Action.bind_eq_ok.mpr
    ⟨true, machine, congrArg (EStateM.Result.ok · machine) isFile, ?_⟩
  refine Action.bind_eq_ok.mpr ⟨false, machine, ?_, ?_⟩
  · simpa using isNew
  refine Action.bind_eq_ok.mpr ⟨(), machine, if_neg (by omega), ?_⟩
  exact Action.bind_eq_ok.mpr
    ⟨.ok text, machine, congrArg (EStateM.Result.ok · machine) reads, rfl⟩

theorem calls_use (evaluator : Evaluator) {keyword path : Token} {file : String}
    (noGroup : machine.registry.group? path.textValue = none)
    (isPath : machine.pathOf path.textValue = some file)
    (isFile : machine.world.files.isFile machine.world.directory file = true)
    (isNew : file ∉ machine.importing)
    (reads : machine.world.files.readText machine.world.directory file = .ok text)
    (valid : (read text).valid = true) (stmts : (read text).statements = stmt :: rest)
    (silent : machine.trace.level = 0) :
    Calls evaluator (·.step frame (.execute (.use keyword path))) machine
      ⟨machine.importFrame, .execute stmt, machine.startImport file⟩ := by
  let started := machine.startImport file
  apply Calls.of_failures { started with importing := machine.importing }
  intro failure isHard
  have failed :
      (evaluator.failingAt ⟨machine.importFrame, .execute stmt, started⟩ failure).runNumbered
          machine.importFrame text started = .error failure started :=
    evaluator.runNumbered_failingAt valid stmts silent isHard
  generalize evaluator.failingAt _ failure = failing at failed ⊢
  have loaded : failing.loadFile file text machine =
      .error failure { started with importing := machine.importing } := by
    have unmarked : started.importing.erase file = machine.importing :=
      List.erase_cons_head _ _
    simp only [Evaluator.loadFile_eq, failed, started, unmarked]
  have used : failing.use frame path machine =
      .error failure { started with importing := machine.importing } := by
    rw [Evaluator.use_eq, noGroup, Evaluator.useFile_eq]
    simp only
    rw [Action.bind_of_ok (findFile_of_reads isPath isFile isNew reads silent)]
    exact Action.bind_of_error loaded
  exact Action.bind_of_error used

end

/-- A file that imports itself under its other path text is imported inside its own import. -/
theorem file_imported_inside_own_import :
    let files : FileTree := { entries := [(["a"], .file 0 (Text.encode "use \"//a\"".toList))] }
    let machine : Machine := { store := { scopes := #[.root] }, world := { files := files } }
    ∃ visit,
      VisitedDuring 3 (·.runSource ⟨0⟩ "use \"a\"") machine 1 visit ["//a", "/a"] ∧
        visit.machine.importing = ["//a", "/a"] ∧
        files.filePlace? [] "//a" = some ["a"] ∧
        files.filePlace? [] "/a" = some ["a"] := by
  intro files machine
  let keyword : Token := ⟨.kwUse, "use", ⟨0, 1, 1⟩, .none⟩
  let first : Token := ⟨.string, "\"a\"", ⟨4, 1, 5⟩, .text "a"⟩
  let second : Token := ⟨.string, "\"//a\"", ⟨4, 1, 5⟩, .text "//a"⟩
  let started : Machine := { machine with sources := 1 }
  let inside := started.startImport "/a"
  have firstLexed :
      (lex "use \"a\"").tokens = [keyword, first, ⟨.endOfInput, "", ⟨7, 1, 8⟩, .none⟩] := by
    decide +kernel
  have secondLexed :
      (lex "use \"//a\"").tokens =
        [keyword, second, ⟨.endOfInput, "", ⟨9, 1, 10⟩, .none⟩] := by
    decide +kernel
  have firstPath : started.pathOf "a" = some "/a" := by decide +kernel
  have secondPath : inside.pathOf "//a" = some "//a" := by decide +kernel
  have runs : Calls (evaluator 3) (·.runSource ⟨0⟩ "use \"a\"") machine
      ⟨⟨⟨0⟩, 0⟩, .execute (.use keyword first), started⟩ :=
    calls_runSource _ (by decide +kernel) (statements_of_lexed firstLexed rfl) rfl
  have imports :
      Calls (evaluator 2) (·.step ⟨⟨0⟩, 0⟩ (.execute (.use keyword first))) started
        ⟨started.importFrame, .execute (.use keyword second), inside⟩ :=
    calls_use _ rfl firstPath (by decide +kernel) (by decide +kernel) (by decide +kernel)
      (by decide +kernel) (statements_of_lexed secondLexed rfl) rfl
  have importsInside :
      Calls (evaluator 1) (·.step started.importFrame (.execute (.use keyword second))) inside
        ⟨inside.importFrame, .execute (.use keyword second), inside.startImport "//a"⟩ :=
    calls_use _ rfl secondPath (by decide +kernel) (by decide +kernel) (by decide +kernel)
      (by decide +kernel) (statements_of_lexed secondLexed rfl) rfl
  have during : VisitedDuring 3 (·.runSource ⟨0⟩ "use \"a\"") machine 1 _
      ((inside.pathOf "//a").toList ++ ((started.pathOf "a").toList ++ [])) :=
    .next (.next (.first runs) imports) importsInside
  rw [firstPath, secondPath] at during
  have holds := (importing_eq_imports_in_progress 3 ⟨0⟩ "use \"a\"" machine).1 1 _
    during.visited
  exact ⟨_, during, (holds.2 _ during).1, by decide +kernel, by decide +kernel⟩

end ArrowScript

import ArrowScript.Proofs.Evaluation.Keeps

namespace ArrowScript

/-!
# Code keeps to its outline

Every construct keeps to its outline as long as the evaluations nested inside
it do, since keeping to an outline is a discipline.  Only an import does more: it
runs a program in between, with its file marked as being imported.  So the
evaluators of all depths keep to outlines, by induction.
-/

open ArrowScript.Action

/-- Code may ask for what its outline has. -/
def Allowance.ofOutline (outline : List Element) : Allowance where
  hands expression := expression.outline ⊆ outline
  block body := .body (.ofBlock body) ∈ outline
  each item body := .body (.ofEach item body) ∈ outline
  binds name := .variable name ∈ outline
  defines name params body := .function name params body ∈ outline
  group name body := .group name ∈ outline ∧ .body (.ofBlock body) ∈ outline
  fault _ := True
  strays := True
  possible _ _ := trivial

section

variable {outline : List Element}

theorem outline_of_mem {outlineOf : α → List Element}
    {listOutline : List α → List Element} {items : List α}
    (cons : ∀ first rest, listOutline (first :: rest) = outlineOf first ++ listOutline rest)
    (inside : listOutline items ⊆ outline) : ∀ item ∈ items, outlineOf item ⊆ outline := by
  induction items with
  | nil => simp
  | cons first rest ih =>
    rw [cons] at inside
    obtain ⟨firstInside, restInside⟩ := List.append_subset.mp inside
    exact List.forall_mem_cons.mpr ⟨firstInside, ih restInside⟩

theorem fitsArms_of_outline {arms : List Arm} {otherwise : Option Block}
    (inside : Arm.listOutline arms ++ otherwise.toList.map (.body ∘ Body.ofBlock) ⊆ outline) :
    (Allowance.ofOutline outline).FitsArms arms otherwise := by
  obtain ⟨armsInside, otherwiseInside⟩ := List.append_subset.mp inside
  refine ⟨?_, ?_⟩
  · rintro ⟨condition, body⟩ mem
    have armInside := outline_of_mem (fun _ _ => rfl) armsInside _ mem
    obtain ⟨conditionInside, bodyInside⟩ := List.append_subset.mp armInside
    exact ⟨conditionInside, bodyInside List.mem_cons_self⟩
  · rintro body ⟨⟩
    exact otherwiseInside (by simp)

theorem fitsTarget_of_outline {target : Expr} (inside : target.outline ⊆ outline) :
    (Allowance.ofOutline outline).FitsTarget target := by
  cases target with
  | declaration keyword name => exact inside List.mem_cons_self
  | element base pos opening closing => exact List.append_subset.mp inside
  | groupMember group name => exact inside
  | _ => trivial

theorem fits_of_outline {expr : Expr} (inside : expr.outline ⊆ outline) :
    (Allowance.ofOutline outline).Fits expr := by
  cases expr with
  | literal | reference | context | groupName | functionName => trivial
  | grouping | unary | groupMember => exact inside
  | block | declaration => exact inside List.mem_cons_self
  | binary op left right =>
    obtain ⟨leftInside, rightInside⟩ := List.append_subset.mp inside
    exact ⟨leftInside, rightInside, fun _ _ => trivial⟩
  | choice keyword subject arms otherwise closing =>
    obtain ⟨subjectInside, rest⟩ := List.append_subset.mp inside
    exact ⟨subjectInside, fitsArms_of_outline rest⟩
  | assign target value =>
    obtain ⟨valueInside, rest⟩ := List.append_subset.mp inside
    exact ⟨fitsTarget_of_outline (List.append_subset.mp rest).1, valueInside⟩
  | call callee args =>
    obtain ⟨calleeInside, argumentsInside⟩ := List.append_subset.mp inside
    refine ⟨?_, outline_of_mem (fun _ _ => rfl) argumentsInside⟩
    cases callee with
    | groupMember group name => exact calleeInside
    | _ => trivial
  | array opening items closing =>
    rintro ⟨value, isSpread⟩ mem
    exact outline_of_mem (fun _ _ => rfl) inside _ mem
  | object opening items closing =>
    intro item mem
    have itemInside := outline_of_mem (fun _ _ => rfl) inside _ mem
    cases item with
    | entry | spread => exact itemInside
  | element base pos opening closing => exact List.append_subset.mp inside
  | push target value closing => exact (List.cons_subset.mp inside).2
  | interpolation opening parts closing => exact outline_of_mem (fun _ _ => rfl) inside

theorem fitsDeclaration_of_outline {stmt : Stmt} (inside : stmt.outline ⊆ outline) :
    (Allowance.ofOutline outline).FitsDeclaration stmt := by
  unfold Allowance.FitsDeclaration
  split
  · exact inside List.mem_cons_self
  · obtain ⟨named, rest⟩ := List.cons_subset.mp inside
    exact ⟨named, rest List.mem_cons_self⟩
  · exact inside List.mem_cons_self
  · obtain ⟨valueInside, rest⟩ := List.append_subset.mp inside
    exact ⟨rest List.mem_cons_self, valueInside⟩
  · trivial

theorem fitsStatement_of_outline {stmt : Stmt} (inside : stmt.outline ⊆ outline) :
    (Allowance.ofOutline outline).FitsStatement stmt := by
  cases stmt with
  | expression value =>
    simp only [Allowance.FitsStatement]
    split
    · exact fitsDeclaration_of_outline inside
    · cases value with
      | block body => exact inside List.mem_cons_self
      | choice => exact fits_of_outline inside
      | _ => exact inside
  | conditional keyword branches otherwise => exact fitsArms_of_outline inside
  | loop | each =>
    obtain ⟨first, body⟩ := List.append_subset.mp inside
    exact ⟨first, body List.mem_cons_self⟩
  | function | group => exact fitsDeclaration_of_outline inside
  | exported keyword declaration =>
    have declared : declaration.outline ⊆ outline := inside
    exact fitsDeclaration_of_outline declared
  | leave | use => trivial

end

/-- The absolute path of a file that is named from the working directory. -/
def Machine.pathOf (machine : Machine) (name : String) : Option String :=
  Path.absolute? machine.world.directory name

/-- An import of a name is one of natives or finds the path that the name stands for. -/
def Machine.Reaches (machine : Machine) (name : String) : Prop :=
  machine.registry.group? name = none → (machine.pathOf name).isSome

/-- The frame in which the program of a file runs. -/
def Machine.importFrame (machine : Machine) : Frame :=
  ⟨⟨machine.store.scopes.size⟩, machine.sources⟩

/-- The machine on which the program of a file starts. -/
def Machine.startImport (machine : Machine) (path : String) : Machine :=
  { machine with
    store := (machine.store.newScope .root).2
    importing := path :: machine.importing
    sources := machine.sources + 1 }

namespace Evaluator

variable {actual : Evaluator} {frame : Frame} {outline : List Element} {isOpen : Bool}
  {body : Block} {name place : Token} {isPublic : Bool} {α : Type} {function : Function}
  {store : Store} {machine final : Machine} {callee : Expr} {args : List Expr}

/-- Run a source that has its number: report everything wrong with it, or run it. -/
def runNumbered (evaluator : Evaluator) (frame : Frame) (text : String) : Action RunResult := do
  let script := read text
  writeLines script.messages
  if script.valid then
    return ⟨← evaluator.interpret frame script.statements, 0, 0⟩
  else
    return ⟨false, script.lexicalErrors.length, script.grammarErrors.length⟩

variable (evaluator : Evaluator)

theorem runSource_eq (scope : Ref .scope) (text : String) :
    evaluator.runSource scope text =
      newSource >>= fun source => evaluator.runNumbered ⟨scope, source⟩ text :=
  rfl

/-- A new outermost scope, and the next number for the source that is to run there. -/
def startSource : Action Frame :=
  Action.changeGet (·.newScope .root) >>= fun scope =>
    newSource >>= fun source => pure ⟨scope, source⟩

theorem loads_startSource {started : Machine} (ran : startSource machine = .ok frame started) :
    machine.Loads frame started := by
  cases ran
  exact ⟨⟨rfl, Nat.le_succ _⟩, rfl, Nat.lt_succ_self _⟩

/-- Read a text and run it in a new outermost scope, with its path marked as being imported. -/
def loadFile (evaluator : Evaluator) (path text : String) : Action (Ref .scope × RunResult) :=
  startSource >>= fun frame => do
    let result ← whileImporting path (evaluator.runNumbered frame text)
    return (frame.scope, result)

theorem bind_loadFile (path text : String) (next : Ref .scope → RunResult → Action α) :
    (Action.changeGet (·.newScope .root) >>= fun imported =>
        whileImporting path (evaluator.runSource imported text) >>= next imported) =
      evaluator.loadFile path text >>= fun loaded => next loaded.1 loaded.2 := by
  have unmarked : ∀ imported, whileImporting path (evaluator.runSource imported text) =
      newSource >>= fun source =>
        whileImporting path (evaluator.runNumbered ⟨imported, source⟩ text) :=
    fun _ => rfl
  simp [loadFile, startSource, unmarked]

/-- Import the names of a file that was loaded, if its program succeeded. -/
def adoptLoaded (frame : Frame) (place : Token) (name : String)
    (loaded : Ref .scope × RunResult) : Action Unit := do
  if !loaded.2.success then
    Action.raiseAt place (.failedUse name)
  mergeScope frame place (← Action.inspect (·.scope loaded.1))

/-- Run the body of a group in a new scope and keep the frame of that scope. -/
def runGroup (evaluator : Evaluator) (frame : Frame) (body : Block) :
    Action (Frame × Completion) :=
  openBody frame [] >>= fun inner => do
    let completion ← evaluator.executeBody inner body
    return (inner, completion)

theorem bind_runGroup (frame : Frame) (body : Block) (next : Frame → Completion → Action α) :
    (innerFrame frame >>= fun inner => evaluator.executeBody inner body >>= next inner) =
      evaluator.runGroup frame body >>= fun ran => next ran.1 ran.2 := by
  simp [runGroup, openBody, bindParameters]

theorem openInner_keeps {inside : Body} {bindings : List (String × Value)}
    {next : Frame → Evaluator → Action α} (mem : .body inside ∈ outline)
    (nodup : (bindings.map Prod.fst).Nodup)
    (bound : ∀ binding ∈ bindings, binding.1 ∈ inside.bound)
    (runs : ∀ inner, Keeps (some Placed) actual (.statements inner inside) (next inner)) :
    Keeps (some Placed) actual (.code frame outline isOpen)
      fun evaluator => openBody frame bindings >>= fun inner => next inner evaluator :=
  fun _ =>
    openBody_keeps (openBody_deed_of_nodup frame nodup) bound
      (fun _ _ gains parent starts => .inner mem gains parent starts) runs

section

variable (steady : actual.Steady)

include steady

theorem executeBlock_keeps (mem : .body (.ofBlock body) ∈ outline) :
    Keeps (some Placed) actual (.code frame outline isOpen) (·.executeBlock frame body) := by
  simp only [executeBlock_eq]
  exact openInner_keeps mem (by simp) (by simp) fun inner =>
    executeBody_keeps steady inner (List.Subset.refl _)

theorem runEach_keeps {item : Token} (mem : .body (.ofEach item body) ∈ outline) (value : Value) :
    Keeps (some Placed) actual (.code frame outline isOpen) (·.runEach frame item body value) :=
  openInner_keeps mem (by simp) (by simp [Body.ofEach]) fun inner =>
    executeBody_keeps steady inner (List.Subset.refl _)

theorem runGroup_keeps (mem : .body (.ofBlock body) ∈ outline) :
    Keeps (some Placed) actual (.code frame outline isOpen) (·.runGroup frame body) :=
  openInner_keeps mem (by simp) (by simp) fun inner =>
    (executeBody_keeps steady inner (List.Subset.refl _)).bind fun _ => .pure _

theorem declareGroup_keeps (named : .group name ∈ outline)
    (mem : .body (.ofBlock body) ∈ outline) :
    Keeps (some Placed) actual (.code frame outline isOpen)
      (·.declareGroup frame name body isPublic) := by
  unfold declareGroup
  simp only [bind_runGroup]
  apply (runGroup_keeps steady mem).bind
  rintro ⟨inner, completion⟩
  cases completion with
  | broke keyword outcome => exact .raiseAt keyword _
  | normal outcome =>
    have made : Keeps (some Placed) actual (.code frame outline isOpen)
        fun _ => changeGet (·.newGroup ⟨name.lexeme, inner.scope⟩) :=
      .quiet (.changeGet fun store => .newGroup store _) (.changeGet fun _ => rfl)
    apply made.bind
    intro group
    apply (Keeps.define fun store scope defined => .declareGroup named defined).bind
    exact fun _ => .trace _ _

theorem executeProgram_keeps {body : Body} {stmts : List Stmt}
    (members : stmts ⊆ body.statements) :
    Keeps (some Placed) actual (.statements frame body) (·.executeProgram frame stmts) :=
  (Keeps.habit (some Placed) actual fun _ : Unit => .statements frame body).executeProgram ()
    (executes_keeps steady frame members) fun _ keyword => .raiseAt keyword _

theorem interpret_keeps (stmts : List Stmt) :
    Keeps none actual (.statements frame (.ofProgram stmts)) (·.interpret frame stmts) := by
  have traced (level : Nat) (line : Store → String) :
      Keeps (some Placed) actual (.statements frame (.ofProgram stmts))
        fun _ => Action.trace level line :=
    .trace level line
  intro machine
  apply (traced _ _ machine).forget.bind
  intro _ started _
  apply (executeProgram_keeps steady (List.Subset.refl _) started).reporting.bind
  intro success ended _
  apply (traced _ _ ended).forget.bind
  exact fun _ final _ => Keeps.pure _ final

theorem runNumbered_keeps (text : String) :
    Keeps none actual (.statements frame (.ofText text)) (·.runNumbered frame text) := by
  intro machine
  have written : Keeps (some Placed) actual (.statements frame (.ofText text))
      fun _ => writeLines (read text).messages :=
    .quiet (.changeWorld _) (.changeWorld _)
  apply (written machine).forget.bind
  intro _ started _
  split
  · rename_i valid
    have program : Body.ofText text = .ofProgram (read text).statements := by
      simp [Body.ofText, valid]
    rw [program]
    apply (interpret_keeps steady _ started).bind
    exact fun _ final _ => Keeps.pure _ final
  · exact Keeps.pure _ started

theorem runSource_keeps (scope : Ref .scope) (text : String) (machine : Machine) :
    KeepsAt none actual (.statements ⟨scope, machine.sources⟩ (.ofText text))
      (·.runSource scope text) machine := by
  have numbered : KeepsAt (some Placed) actual
    (.statements ⟨scope, machine.sources⟩ (.ofText text))
      (fun _ => newSource) machine :=
    .deed newSource_deed (.kept rfl (Nat.le_succ _))
  apply numbered.forget.bind
  intro source started ran
  cases ran
  exact runNumbered_keeps steady text _

end

theorem useFile_eq (frame : Frame) (place : Token) (name : String) :
    evaluator.useFile frame place name = findFile place name >>= fun found =>
      evaluator.loadFile found.1 found.2 >>= adoptLoaded frame place name :=
  bind_congr fun found => bind_loadFile evaluator found.1 found.2 fun imported result =>
    adoptLoaded frame place name (imported, result)

/-- A path is looked up, or there is no working directory to look it up from. -/
theorem absolutePath_deed (text : String) : Deed Placed (Action.absolutePath text) := by
  apply (Deed.look _).bind
  intro path
  cases path with
  | none => exact .throw trivial
  | some path => exact .pure path

theorem findFile_deed (place : Token) (name : String) : Deed Placed (findFile place name) := by
  apply (absolutePath_deed name).bind
  intro path
  apply (Deed.look _).bind
  intro isFile
  simp only
  split
  · exact .raiseAt_bind
  apply (Deed.look _).bind
  intro isImporting
  split
  · exact .raiseAt_bind
  apply (Deed.trace _ _).bind
  intro _
  apply (Deed.look _).bind
  intro content
  cases content with
  | error reason => exact .raiseAt place _
  | ok text => exact .pure _

theorem adoptLoaded_deed (frame : Frame) (place : Token) (name : String)
    (loaded : Ref .scope × RunResult) : Deed Placed (adoptLoaded frame place name loaded) := by
  unfold adoptLoaded
  split
  · exact .raiseAt_bind
  · exact (Deed.inspect _).bind fun library => mergeScope_deed frame place library

theorem absolutePath_detached (text : String) : Detached (Action.absolutePath text) := by
  refine .bind (.look fun _ _ => rfl) fun path => ?_
  cases path with
  | none => exact .throw _
  | some path => exact .pure path

theorem findFile_detached (place : Token) (name : String) : Detached (findFile place name) := by
  refine .bind (absolutePath_detached name) fun path =>
    .bind (.look fun _ _ => rfl) fun isFile => ?_
  simp only
  split
  · exact .throw _
  refine .bind (.look fun _ _ => rfl) fun isImporting => ?_
  split
  · exact .throw _
  refine .bind (.trace 1 fun _ _ => rfl) fun _ => .bind (.look fun _ _ => rfl) fun content => ?_
  cases content with
  | error reason => exact .throw _
  | ok text => exact .pure _

theorem absolutePath_eq (name : String) (machine : Machine) :
    Action.absolutePath name machine =
      match machine.pathOf name with
      | some path => .ok path machine
      | none => .error .directoryRemoved machine := by
  refine Eq.trans (Action.bind_of_ok rfl) ?_
  unfold Machine.pathOf
  cases Path.absolute? machine.world.directory name <;> rfl

theorem findFile_eq_ok {place : Token} {name path text : String}
    (found : findFile place name machine = .ok (path, text) final) :
    machine.pathOf name = some path ∧ path ∉ machine.importing := by
  unfold findFile at found
  obtain ⟨shown, _, named, found⟩ := Action.bind_eq_ok.mp found
  rw [absolutePath_eq] at named
  split at named
  swap
  · cases named
  rename_i isPath
  cases named
  obtain ⟨isFile, _, looked, found⟩ := Action.bind_eq_ok.mp found
  cases looked
  simp only at found
  split at found
  · cases found
  obtain ⟨isImporting, _, looked, found⟩ := Action.bind_eq_ok.mp found
  cases looked
  split at found
  · cases found
  rename_i notImporting
  obtain ⟨_, traced, _, found⟩ := Action.bind_eq_ok.mp found
  obtain ⟨content, _, _, found⟩ := Action.bind_eq_ok.mp found
  split at found
  · cases found
  · cases found
    exact ⟨isPath, by simpa using notImporting⟩

theorem loadFile_eq (path text : String) (machine : Machine) :
    evaluator.loadFile path text machine =
      match evaluator.runNumbered machine.importFrame text (machine.startImport path) with
      | .ok result final =>
        .ok (machine.importFrame.scope, result)
          { final with importing := final.importing.erase path }
      | .error failure final =>
        .error failure { final with importing := final.importing.erase path } := by
  let started : Machine := { machine.startImport path with importing := machine.importing }
  have starts : startSource machine = .ok machine.importFrame started := rfl
  have marks : { started with importing := path :: started.importing } = machine.startImport path :=
    rfl
  unfold loadFile
  rw [Action.bind_of_ok starts]
  simp only [bind, EStateM.bind, whileImporting, marks]
  cases evaluator.runNumbered machine.importFrame text (machine.startImport path) <;> rfl

theorem after_mergeScope (frame : Frame) (place : Token) (library : Scope) (machine : Machine) :
    after (mergeScope frame place library machine) = machine.modifyStore fun store =>
      store.setScope frame.scope ((store.scope frame.scope).mergeFrom library).scope := by
  have merged : changeGet (fun store => (store.merge frame.scope library).swap) machine =
      .ok (machine.store.merge frame.scope library).2
        (machine.modifyStore fun store => (store.merge frame.scope library).1) :=
    rfl
  unfold mergeScope
  rw [bind_of_ok merged]
  cases (machine.store.merge frame.scope library).2 <;> rfl

/-- The names of a file are imported, or its program failed. -/
theorem after_adoptLoaded (frame : Frame) (place : Token) (name : String)
    (loaded : Ref .scope × RunResult) (machine : Machine) :
    after (adoptLoaded frame place name loaded machine) = machine ∨
      after (adoptLoaded frame place name loaded machine) = machine.adopt frame.scope loaded.1 := by
  unfold adoptLoaded
  split
  · exact .inl rfl
  · exact .inr (after_mergeScope frame place _ machine)

/-- A file is marked as being imported just while its program runs in a new outermost scope. -/
theorem adoptLoaded_keeps (steady : actual.Steady) {use : Token} {file text name : String}
    (mem : .use use ∈ outline) (notImporting : file ∉ machine.importing) :
    KeepsAt none actual (.importing frame outline (some file))
      (fun evaluator => evaluator.loadFile file text >>= adoptLoaded frame place name) machine := by
  let start := machine.startImport file
  let unmark : Machine → Machine := fun final =>
    { final with importing := final.importing.erase file }
  let adopt : RunResult → Action Unit := fun result =>
    adoptLoaded frame place name (machine.importFrame.scope, result)
  let finish : EStateM.Result Failure Machine RunResult → EStateM.Result Failure Machine Unit
    | .ok result final => adopt result (unmark final)
    | .error failure final => .error failure (unmark final)
  have loads : machine.Loads machine.importFrame start :=
    ⟨⟨rfl, Nat.le_succ _⟩, rfl, Nat.lt_succ_self _⟩
  have unmarked : ∀ final, start.Edits final → machine.Edits (unmark final) := by
    intro final edits
    have started : machine.store.Edits start.store := .newScope machine.store .root
    refine ⟨started.trans edits.store, ?_, edits.level, Nat.le_of_succ_le edits.sources⟩
    show final.importing.erase file = machine.importing
    rw [edits.importing]
    exact List.erase_cons_head file machine.importing
  have adopts (result : RunResult) :=
    (adoptLoaded_deed frame place name (machine.importFrame.scope, result)).edits
  obtain ⟨visits, course⟩ :
      KeepsAt none actual (.statements machine.importFrame (.ofText text)) _ start :=
    runNumbered_keeps steady text start
  refine ⟨visits, course.around finish ?_ (fun _ _ _ => ⟨_, rfl⟩) ?_ ?_ ?_ ?_⟩
  · intro evaluator
    simp only [bind, EStateM.bind, loadFile_eq]
    cases evaluator.runNumbered machine.importFrame text start <;> rfl
  · exact fun visit entered =>
      ⟨.executes (.refl machine) (.load loads) entered.1, file, rfl, notImporting,
        entered.2.importing⟩
  · intro outcome moved
    have quiet : Progress machine.importFrame (Body.ofText text).outline false start
        (unmark (after outcome)) :=
      moved.trans (.kept rfl (Nat.le_refl _))
    cases outcome with
    | error failure final => exact .enter (.load loads) quiet
    | ok result final =>
      rcases after_adoptLoaded frame place name (machine.importFrame.scope, result)
        (unmark final) with same | adopted
      · exact same ▸ .enter (.load loads) quiet
      · exact adopted ▸ .adopt mem loads quiet
  · intro outcome
    cases outcome with
    | ok result final => exact (adopts result (unmark final)).store
    | error failure final => exact .refl _
  · intro outcome edits
    cases outcome with
    | ok result final => exact (unmarked final edits).trans (adopts result _)
    | error failure final => exact unmarked final edits

theorem useFile_keeps (steady : actual.Steady) {use : Token} (mem : .use use ∈ outline)
    (place : Token) (name : String) (machine : Machine) :
    KeepsAt none actual (.importing frame outline (machine.pathOf name))
      (·.useFile frame place name) machine := by
  simp only [useFile_eq]
  have finds : Keeps (some Placed) actual (.importing frame outline (machine.pathOf name))
      fun _ => findFile place name :=
    .quiet (findFile_deed place name) (findFile_detached place name).quiet
  apply (finds machine).forget.bind
  intro file middle found
  have edits := (findFile_deed place name).edits machine
  rw [found] at edits
  obtain ⟨isPath, notImporting⟩ := findFile_eq_ok found
  rw [isPath]
  exact adoptLoaded_keeps steady mem (edits.importing ▸ notImporting)

/-- Import a group of natives. -/
def useNatives (frame : Frame) (path : Token) (natives : List Native) : Action Unit := do
  Action.trace 1 fun _ => "use built-in group " ++ path.textValue
  mergeScope frame path (.ofNatives natives)

theorem use_eq (frame : Frame) (path : Token) (machine : Machine) :
    evaluator.use frame path machine =
      match machine.registry.group? path.textValue with
      | some natives => useNatives frame path natives machine
      | none => evaluator.useFile frame path path.textValue machine := by
  refine Eq.trans (Action.bind_of_ok rfl) ?_
  cases machine.registry.group? path.textValue <;> rfl

/-- Only a file that is not being imported is, and it is marked at the visits of its import. -/
theorem use_keeps (steady : actual.Steady) {path : Token} (mem : .use path ∈ outline)
    (machine : Machine) :
    KeepsAt none actual (.importing frame outline (machine.pathOf path.textValue))
      (·.use frame path) machine := by
  cases isGroup : machine.registry.group? path.textValue with
  | some natives =>
    have merges (middle : Machine) :
        KeepsAt (some Placed) actual (.importing frame outline (machine.pathOf path.textValue))
          (fun _ => mergeScope frame path (.ofNatives natives)) middle := by
      apply KeepsAt.deed (mergeScope_deed frame path _)
      rw [after_mergeScope]
      exact .declare (.useNatives mem)
    have traced :
        Keeps (some Placed) actual (.importing frame outline (machine.pathOf path.textValue))
          fun _ => Action.trace 1 fun _ => "use built-in group " ++ path.textValue :=
      .trace _ _
    refine ((traced.bind fun _ => merges) machine).forget.congr fun evaluator _ => ?_
    rw [use_eq, isGroup]
    rfl
  | none =>
    refine (useFile_keeps steady mem path path.textValue machine).congr fun evaluator _ => ?_
    rw [use_eq, isGroup]

/-- A function that a scope of the store defines, or a native. -/
def Stored (store : Store) (function : Function) : Prop :=
  ∀ user,
    function = .user user →
    ∃ owner name entry,
      (name, entry) ∈ (store.scope owner).functions ∧ entry.value = .user user

theorem Stored.of_scopes_eq {before after : Store} (stored : Stored before function)
    (same : after.scopes = before.scopes) : Stored after function := by
  intro user isUser
  obtain ⟨owner, name, entry, defined, value⟩ := stored user isUser
  rw [← Store.scope_of_scopes_eq same] at defined
  exact ⟨owner, name, entry, defined, value⟩

theorem stored_of_visible {kind : NameKind} {ref owner : Ref .scope} {name : String}
    {entry : Entry Function}
    (found : store.visible kind Scope.functions ref name = .ok (owner, entry)) :
    Stored store entry.value := by
  obtain ⟨-, looked, -⟩ := Store.visible_eq_ok found
  exact fun user isUser => ⟨owner, name, entry, Namespace.mem_of_lookup looked, isUser⟩

theorem stored_of_functionNamed {registry : Registry} {ref : Ref .scope} {name : String}
    (found : store.functionNamed registry ref name = .ok function) : Stored store function := by
  unfold Store.functionNamed at found
  split at found
  · rename_i entry visible
    cases found
    exact stored_of_visible visible
  · split at found
    · cases found
      rintro user ⟨⟩
    · cases found

theorem stored_of_member {group reader : Ref .scope} {name : String} {entry : Entry Function}
    (found : store.member .functionName Scope.functions group reader name = .ok entry) :
    Stored store entry.value := by
  obtain ⟨located, -⟩ := Store.member_eq_ok found
  exact fun user isUser => ⟨group, name, entry, Namespace.mem_of_lookup located, isUser⟩

/-- A callee that is found is a native, or a scope has it. -/
theorem stored_of_resolveCallee {found : Function × Token}
    (resolved : actual.resolveCallee frame callee machine = .ok found final) :
    Stored final.store found.1 := by
  unfold resolveCallee at resolved
  split at resolved
  · obtain ⟨registry, _, looked, resolved⟩ := bind_eq_ok.mp resolved
    cases looked
    obtain ⟨function, middle, looked, resolved⟩ := bind_eq_ok.mp resolved
    cases resolved
    obtain ⟨found, rfl⟩ := lookUp_eq_ok looked
    exact stored_of_functionNamed found
  · obtain ⟨group, middle, -, resolved⟩ := bind_eq_ok.mp resolved
    obtain ⟨entry, final, looked, resolved⟩ := bind_eq_ok.mp resolved
    cases resolved
    obtain ⟨found, rfl⟩ := lookUp_eq_ok looked
    exact stored_of_member found
  · cases resolved

/-- What a call does first: it evaluates the arguments and finds a callee that takes so many. -/
def prepareCall (evaluator : Evaluator) (frame : Frame) (callee : Expr)
    (args : List Expr) : Action (Function × Token × List Value) := do
  let values ← evaluator.evaluateArguments frame args
  let (function, name) ← evaluator.resolveCallee frame callee
  if function.arity ≠ values.length then
    Action.raiseAt name (.wrongArity function.arity values.length)
  Action.trace 3 fun store =>
    "call " ++ name.lexeme ++ "(" ++ Store.commaSeparated (values.map (store.text true)) ++ ")"
  return (function, name, values)

theorem evaluateCall_eq (frame : Frame) (callee : Expr)
    (args : List Expr) : evaluator.evaluateCall frame callee args =
      evaluator.prepareCall frame callee args >>= fun prepared =>
        Action.inCall ⟨prepared.2.1.lexeme, prepared.2.1.start⟩
          (evaluator.callFunction prepared.1 prepared.2.2) := by
  unfold evaluateCall prepareCall
  simp only [bind_assoc]
  congr 1
  funext values
  congr 1
  funext resolved
  split
  · rfl
  · simp only [bind_assoc, pure_bind]

theorem stored_of_prepareCall
    {prepared : Function × Token × List Value}
    (ran : actual.prepareCall frame callee args machine = .ok prepared final) :
    Stored final.store prepared.1 := by
  obtain ⟨values, evaluated, -, ran⟩ := bind_eq_ok.mp ran
  obtain ⟨found, resolved, isFound, ran⟩ := bind_eq_ok.mp ran
  have stored := stored_of_resolveCallee isFound
  simp only at ran
  split at ran
  · cases ran
  · obtain ⟨_, traced, isTraced, ended⟩ := bind_eq_ok.mp ran
    cases ended
    exact stored.of_scopes_eq ((Quiet.trace _ _).scopes_of_ok isTraced)

/-- What a callee raises itself: a native refuses, a script function may bind a name twice. -/
def calleeRaises : Function → Option Position → Fault → Prop
  | .native _ => Refusing
  | .user function => Rebinding function.parameters

theorem contains_of_evaluateKey {evaluator : Evaluator} {place : Token} {ref : Ref .object}
    {pos : Expr} {machine : Machine} {key : Value}
    (evaluated : evaluator.evaluateKey frame place ref pos machine = .ok key final) :
    (final.store.object ref).contains key = true := by
  unfold evaluateKey at evaluated
  cases outcome : evaluator.evaluate frame pos machine with
  | error failure middle =>
    rw [Action.bind_of_error outcome] at evaluated
    cases evaluated
  | ok value middle =>
    rw [Action.bind_of_ok outcome] at evaluated
    simp only at evaluated
    split at evaluated
    · cases evaluated
    have looked : Action.inspect (fun store => (store.object ref).contains value) middle =
        .ok ((middle.store.object ref).contains value) middle :=
      rfl
    rw [Action.bind_of_ok looked] at evaluated
    split at evaluated
    · cases evaluated
      assumption
    · cases evaluated

section

variable (steady : actual.Steady)

include steady

/-- Keeping to an outline is a discipline, whatever the ground is; `@` is open in some worlds. -/
def keeping (frame : Frame) (outline : List Element) :
    Discipline ⟨.empty, 0⟩ (fun _ : Bool => .nothing) (.ofOutline outline) frame where
  toHabit := Keeps.habit (some Placed) actual fun isOpen => .code frame outline isOpen
  isOpen flag := flag = true
  opens _ := true
  isOpen_opens _ := rfl
  isOpen_later same isOpen := same ▸ isOpen
  opens_within _ := .refl .nothing
  keepingContext holds machine := (holds machine).keepingContext
  rounds holds machine :=
    (holds actual.rounds machine).congr fun _ sameRounds => by rw [sameRounds]
  evaluate inside := .evaluate steady inside
  executeBlock member := executeBlock_keeps steady member
  runEach member _ := runEach_keeps steady member _
  declareGroup _ members := declareGroup_keeps steady members.1 members.2
  raiseAt token _ := .raiseAt token _
  exhausted := .quiet (.throw trivial) fun _ => rfl
  strays _ := .quiet (.throw trivial) fun _ => rfl
  viewItems _ _ _ _ := .inspect _
  viewObject _ _ _ _ _ := .inspect _
  text _ := .inspect _
  group _ := .inspect _
  hasGroup _ _ := .inspect _
  context _ := .inspect _
  readVariable _ := .lookUp _ _
  overwrite _ _ :=
    (Keeps.lookUp _ _).bind fun _ => (Keeps.setVariable _ _ _).bind fun _ => .pure _
  functionNamed _ :=
    (Keeps.quiet (.look Machine.registry) (.look _)).bind fun _ =>
      (Keeps.lookUp _ _).bind fun _ => .pure _
  groupNamed _ := .lookUp _ _
  member _ _ _ _ := .lookUp _ _
  setContext isOpen _ := isOpen ▸ .setContext _
  traceCondition _ _ := .trace _ _
  declareVariable _ member _ :=
    (Keeps.define fun _ _ defined => .declareVariable member defined).bind fun _ => .trace _ _
  declareFunction _ member :=
    (Keeps.define fun _ _ defined => .declareFunction member defined).bind fun _ => .trace _ _
  changeItems ref _ _ _ _ :=
    .quiet (.change fun store => .modifyArray store ref _) (.change fun _ => rfl)
  newArray _ :=
    (Keeps.quiet (.changeGet fun store => .newArray store _) (.changeGet fun _ => rfl)).bind
      fun _ => .pure _
  newObject _ :=
    (Keeps.quiet (.changeGet fun store => .newObject store _) (.changeGet fun _ => rfl)).bind
      fun _ => .pure _

/-- A key that was evaluated for an object is one that it has, whatever its new value does. -/
theorem assignKey_keeps {pos expr : Expr} (positionInside : pos.outline ⊆ outline)
    (expressionInside : expr.outline ⊆ outline) (place : Token) (ref : Ref .object) :
    Keeps (some Placed) actual (.code frame outline true)
      (·.assignKey frame place ref pos expr) := by
  let rules := keeping steady frame outline
  have keyed : rules.Holds true _ (·.evaluateKey frame place ref pos) :=
    rules.evaluateKey place ref positionInside
  intro machine
  apply (keyed machine).bind
  intro key found evaluated
  have valued : Keeps (some Placed) actual (.code frame outline true) fun _ => valueOf ref key :=
    .inspect _
  apply (valued found).bind
  intro replaced middle looked
  obtain rfl : found = middle := by
    cases looked
    rfl
  have replacing : rules.Holds true _ (·.evaluateReplacing frame (some replaced) expr) :=
    rules.evaluateReplacing rfl (Carried.nothing (some replaced)) expressionInside
  have evaluates := replacing found
  apply evaluates.bind
  intro value final ran
  have edits := evaluates.edits
  rw [ran] at edits
  have hasStill := edits.store.contains (contains_of_evaluateKey evaluated)
  have replaces : final.Edits (final.modifyStore (·.setKey ref key value)) :=
    .modifyStore (.setKey value hasStill)
  have writes : KeepsAt (some Placed) actual (.code frame outline true)
      (fun _ => Action.change (·.setKey ref key value)) final := by
    refine .own (.kept rfl (Nat.le_refl _)) replaces ?_
    intro _ _ failure ended failed
    cases failed
  exact writes.bind fun _ ended _ => Keeps.pure _ ended

theorem keeping_special : (keeping steady frame outline).Special where
  assignKey place ref isOpen handsPosition hands := by
    cases isOpen
    exact assignKey_keeps steady handsPosition hands place ref
  assignMember :=
    (keeping steady frame outline).assignMember fun _ owner name value _ =>
      .setVariable owner name value

theorem prepareCall_keeps
    (fits : (Allowance.ofOutline outline).Fits (.call callee args)) :
    Keeps (some Placed) actual (.code frame outline isOpen) (·.prepareCall frame callee args) := by
  let rules := keeping steady frame outline
  have evaluated : rules.Holds isOpen _ (·.evaluateArguments frame args) :=
    rules.evaluateArguments fits.2
  have resolved : rules.Holds isOpen _ (·.resolveCallee frame callee) :=
    rules.resolveCallee fits.1
  apply Keeps.bind evaluated
  intro values
  apply Keeps.bind resolved
  intro resolved
  simp only
  split
  · exact .raiseAt _ _
  · exact (Keeps.trace _ _).bind fun _ => .pure _

theorem callFunction_keeps {args : List Value} (stored : Stored machine.store function) :
    KeepsAt (some (calleeRaises function)) actual (.code frame outline isOpen)
      (·.callFunction function args) machine := by
  cases function with
  | native native =>
    exact Keeps.quiet (native.call_deed args) (native.call_tame args).detached.quiet machine
  | user user =>
    obtain ⟨owner, name, entry, defined, isUser⟩ := stored user rfl
    have bound : ∀ binding ∈ user.parameters.zip args, binding.1 ∈ user.code.bound :=
      fun binding mem => (List.of_mem_zip mem).1
    have opens : Deed (Rebinding user.parameters)
        (openBody ⟨user.closure, user.source⟩ (user.parameters.zip args)) := by
      apply (openBody_deed _ _).mono
      rintro place fault ⟨unplaced, name, isName, repeated⟩
      refine ⟨unplaced, name, isName, Nat.lt_of_lt_of_le repeated ?_⟩
      rw [List.zip_eq_zip_take_min, List.map_fst_zip (by simp)]
      exact (List.take_sublist _ _).count_le name
    simp only [callFunction, callUser_eq]
    apply openBody_keeps opens bound
    · exact fun scope started gains parent starts => .call defined isUser gains parent starts
    · intro inner
      exact (executeBody_keeps steady inner (List.Subset.refl _)).bind fun _ => .pure _

theorem evaluateCall_keeps
    (fits : (Allowance.ofOutline outline).Fits (.call callee args)) :
    Keeps none actual (.code frame outline isOpen) (·.evaluateCall frame callee args) := by
  intro machine
  simp only [evaluateCall_eq]
  apply (prepareCall_keeps steady fits machine).forget.bind
  intro prepared started ran
  exact (callFunction_keeps steady (stored_of_prepareCall ran)).inCall _

end

end Evaluator

/-- A task other than a call and an import. -/
def Task.IsPlain : Task → Prop
  | .evaluate (.call _ _) | .execute (.use _ _) => False
  | _ => True

theorem Task.call_or_use_of_not_isPlain (task : Task) (notPlain : ¬ task.IsPlain) :
    (∃ callee args, task = .evaluate (.call callee args)) ∨
      ∃ keyword path, task = .execute (.use keyword path) := by
  unfold IsPlain at notPlain
  split at notPlain
  · exact .inl ⟨_, _, rfl⟩
  · exact .inr ⟨_, _, rfl⟩
  · exact absurd trivial notPlain

namespace Evaluator

variable {actual : Evaluator} {task : Task}

variable (steady : actual.Steady)

include steady

/-- A task other than a call and an import tells where its failures come from. -/
theorem plainStep_keeps (frame : Frame) (isPlain : task.IsPlain) :
    Keeps (some Placed) actual (.code frame task.outline false) (·.step frame task) := by
  cases task with
  | evaluate expr =>
    apply (keeping steady frame _).evaluateExpression (keeping_special steady) false
      (fits_of_outline (List.Subset.refl _))
    rintro callee args rfl
    exact isPlain.elim
  | execute stmt =>
    apply (keeping steady frame _).executeStatement false
      (fitsStatement_of_outline (List.Subset.refl _))
    rintro keyword path rfl
    exact isPlain.elim

/-- A task other than an import leaves alone the imports that go on. -/
theorem ownStep_keeps (frame : Frame)
    (notUse : ∀ keyword path, task ≠ .execute (.use keyword path)) :
    Keeps none actual (.code frame task.outline false) (·.step frame task) := by
  intro machine
  by_cases isPlain : task.IsPlain
  · exact (plainStep_keeps steady frame isPlain machine).forget
  · rcases task.call_or_use_of_not_isPlain isPlain with
      ⟨callee, args, rfl⟩ | ⟨keyword, path, rfl⟩
    · exact evaluateCall_keeps steady (fits_of_outline (List.Subset.refl _)) machine
    · exact (notUse keyword path rfl).elim

theorem useStep_keeps (frame : Frame) (keyword path : Token) (machine : Machine) :
    KeepsAt none actual
      (.importing frame (Task.execute (.use keyword path)).outline (machine.pathOf path.textValue))
      (·.step frame (.execute (.use keyword path))) machine :=
  (use_keeps steady List.mem_cons_self machine).bind fun _ final _ => Keeps.pure _ final

theorem step_keeps (frame : Frame) (task : Task) :
    Keeps none actual (.handing frame task.outline) (·.step frame task) := by
  intro machine
  by_cases isUse : ∃ keyword path, task = .execute (.use keyword path)
  · obtain ⟨keyword, path, rfl⟩ := isUse
    obtain ⟨visits, course⟩ := useStep_keeps steady frame keyword path machine
    exact ⟨visits, { course with enters := fun visit mem => (course.enters visit mem).1 }⟩
  · have notUse : ∀ keyword path, task ≠ .execute (.use keyword path) :=
      fun keyword path same => isUse ⟨keyword, path, same⟩
    obtain ⟨visits, course⟩ := ownStep_keeps steady frame notUse machine
    exact ⟨visits, { course with enters := fun visit mem => (course.enters visit mem).1 }⟩

/-- An evaluator that does one step of a task, or gives up at once, is steady. -/
theorem Steady.of_answers {outer : Evaluator}
    (answers : ∀ visit, outer.answer visit = actual.step visit.frame visit.task visit.machine ∨
      ∃ failure, outer.answer visit = .error failure visit.machine) :
    outer.Steady := by
  have keeps (visit : Visit) := step_keeps steady visit.frame visit.task visit.machine
  refine ⟨?_, ?_⟩
  all_goals
    intro visit
    rcases answers visit with stepped | ⟨failure, stopped⟩
  · exact stepped ▸ (keeps visit).moves
  · exact stopped ▸ .refl visit.machine
  · exact stepped ▸ (keeps visit).edits
  · exact stopped ▸ .refl visit.machine

end Evaluator

/-- Evaluators of all depths keep to the outlines of their tasks and edit stores. -/
theorem evaluator_steady (depth : Nat) : (evaluator depth).Steady := by
  induction depth with
  | zero =>
    refine ⟨?_, ?_⟩
    all_goals
      rintro ⟨frame, task, machine⟩
      cases task <;> exact .refl machine
  | succ depth ih =>
    refine ih.of_answers fun visit => .inl ?_
    unfold Evaluator.answer
    rw [evaluator_succ_perform]

theorem evaluator_faithful (depth : Nat) : (evaluator depth).Faithful :=
  (evaluator_steady depth).faithful

theorem evaluator_edits (depth : Nat) : (evaluator depth).Edits :=
  (evaluator_steady depth).edits

/-- A task hands over expressions of its own and statements of bodies that it opens. -/
theorem Calls.step_enters {level : Nat} {outer inner : Visit}
    (calls : Calls (evaluator level) (·.step outer.frame outer.task) outer.machine inner) :
    Enters outer.frame outer.task.outline outer.machine inner :=
  (Evaluator.step_keeps (evaluator_steady level) outer.frame outer.task outer.machine).enters calls

end ArrowScript

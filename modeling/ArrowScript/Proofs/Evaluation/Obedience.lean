import ArrowScript.Proofs.Evaluation.Attendance
import ArrowScript.Proofs.Store.Law

namespace ArrowScript

/-!
# Code that keeps to a law

An action is permitted if it leads from machines that a law allows to such
machines, fails only as the law allows, and goes the same way on the silent
machine beside them.  Code obeys a law if it does so too and visits only tasks
and machines that the law allows.  These are the rules for putting such code
together.  What is known of a value is known from some store on, so all of them
are about the machines whose stores come later than a given one.

A run that gives up with `unexpectedNode` has left what is compared; no run of a
valid text does.
-/

/-- The world with other files. -/
def World.withFiles (world : World) (files : FileTree) : World :=
  { world with files := files }

/-- The machine without a trace, on other files. -/
def Machine.hushed (machine : Machine) (files : FileTree) : Machine :=
  { machine with
    trace := {}
    world := machine.world.withFiles files }

/-- A line of an open trace goes to its file and changes nothing else. -/
theorem Machine.exists_addTrace {file : TraceFile} (machine : Machine)
    (isOpen : machine.trace.file = some file) (line : String) : ∃ files later,
      machine.addTrace line = { machine with
            world := machine.world.withFiles files
            trace := { machine.trace with file := some later } } ∧
        machine.world.files.StandsIn files := by
  let bytes := Text.encode (line.toList ++ ['\n'])
  refine ⟨machine.world.files.writeAt file.identity file.offset bytes,
    { file with offset := file.offset + bytes.length }, ?_, FileTree.standsIn_writeAt _ _ _ _⟩
  simp only [addTrace, isOpen]
  rfl

/-- A machine traces to a file, and the files from before are all still there. -/
structure Machine.Traces (machine : Machine) (files : FileTree) : Prop where
  opened : machine.trace.file.isSome
  stands : files.StandsIn machine.world.files

/-- Report the error that an action raises and go on without a value. -/
def Action.attempt (action : Action α) : Action (Option α) :=
  fun machine =>
    match action machine with
    | .ok value machine => .ok (some value) machine
    | .error (.raised error) machine => .ok none (machine.modifyWorld (·.writeLine error.message))
    | .error failure machine => .error failure machine

theorem Evaluator.reporting_bind (action : Action α) (next : α → Action Unit) :
    reporting (action >>= next) = action.attempt >>= fun result =>
        match result with
        | some value => reporting (next value)
        | none => pure false := by
  funext machine
  cases outcome : action machine with
  | ok value middle =>
    have attempted : action.attempt machine = .ok (some value) middle := by
      simp only [Action.attempt, outcome]
    rw [Action.bind_of_ok attempted]
    simp only [reporting, Action.bind_of_ok outcome]
  | error failure middle =>
    cases failure with
    | raised error =>
      have attempted : action.attempt machine =
          .ok none (middle.modifyWorld (·.writeLine error.message)) := by
        simp only [Action.attempt, outcome]
      rw [Action.bind_of_ok attempted]
      simp only [reporting, Action.bind_of_error outcome]
      rfl
    | _ => simp only [reporting, Action.attempt, Bind.bind, EStateM.bind, outcome]

namespace Law

/-- A machine holds only what a law allows. -/
structure Allows (law : Law) (machine : Machine) : Prop where
  store : law.AllowsStore machine.store
  registry : law.registry machine.registry
  sources : law.sources machine.sources
  traces : ∀ files ∈ law.silent, machine.Traces files

/-- The silent machine beside a machine, or the machine itself if the law has no silent side. -/
def twin (law : Law) (machine : Machine) : Machine :=
  match law.silent with
  | none => machine
  | some files => machine.hushed files

section

variable (law : Law) (machine : Machine)

@[simp]
theorem store_twin : (law.twin machine).store = machine.store := by
  unfold twin
  split <;> rfl

@[simp]
theorem registry_twin : (law.twin machine).registry = machine.registry := by
  unfold twin
  split <;> rfl

@[simp]
theorem importing_twin : (law.twin machine).importing = machine.importing := by
  unfold twin
  split <;> rfl

@[simp]
theorem directory_twin :
    (law.twin machine).world.directory = machine.world.directory := by
  unfold twin
  split <;> rfl

@[simp]
theorem memory_twin : (law.twin machine).world.memory = machine.world.memory := by
  unfold twin
  split <;> rfl

theorem twin_withStore (store : Store) :
    law.twin { machine with store := store } = { law.twin machine with store := store } := by
  unfold twin
  split <;> rfl

theorem twin_modifyStore (change : Store → Store) :
    law.twin (machine.modifyStore change) = (law.twin machine).modifyStore change := by
  unfold Machine.modifyStore
  rw [twin_withStore, store_twin]

theorem twin_withImporting (paths : List String) :
    law.twin { machine with importing := paths } =
      { law.twin machine with importing := paths } := by
  unfold twin
  split <;> rfl

variable {law machine}

/-- A law looks at nothing but the store, the registry, the sources, the trace and the files. -/
theorem Allows.of_same {other : Machine} (allows : law.Allows machine)
    (storeAllows : law.AllowsStore other.store) (sources : law.sources other.sources)
    (registry : other.registry = machine.registry) (trace : other.trace = machine.trace)
    (files : other.world.files = machine.world.files) : law.Allows other where
  store := storeAllows
  registry := by
    rw [registry]
    exact allows.registry
  sources := sources
  traces before isSilent := by
    obtain ⟨opened, stands⟩ := allows.traces before isSilent
    refine ⟨?_, ?_⟩
    · rwa [trace]
    · rwa [files]

theorem Allows.withStore {store : Store} (allows : law.Allows machine)
    (storeAllows : law.AllowsStore store) : law.Allows { machine with store := store } :=
  allows.of_same storeAllows allows.sources rfl rfl rfl

theorem Allows.withImporting (allows : law.Allows machine) (paths : List String) :
    law.Allows { machine with importing := paths } :=
  allows.of_same allows.store allows.sources rfl rfl rfl

end

/-- How an action ends that started at a machine, and how it ends on the silent side. -/
structure Ends {α : Type} (law : Law) (start : Machine) (post : Store → α → Prop)
    (outcome silent : EStateM.Result Failure Machine α) : Prop where
  allows : law.Allows (Action.after outcome)
  precedes : start.store.Precedes (Action.after outcome).store
  holds : ∀ value final, outcome = .ok value final → post final.store value
  fails : ∀ failure final, outcome = .error failure final → law.demand.fails failure
  alike : (∀ final, outcome ≠ .error .unexpectedNode final) →
    silent = Action.mapAfter law.twin outcome

section

variable {α β : Type} {law : Law} {start final : Machine} {post : Store → α → Prop}
  {outcome silent : EStateM.Result Failure Machine α}

theorem Ends.of_ok {value : α} (ended : outcome = .ok value final)
    (silentEnded : silent = .ok value (law.twin final)) (allows : law.Allows final)
    (precedes : start.store.Precedes final.store) (holds : post final.store value) :
    law.Ends start post outcome silent := by
  subst ended
  refine ⟨allows, precedes, ?_, by simp, fun _ => silentEnded⟩
  intro result machine same
  cases same
  exact holds

theorem Ends.of_error {failure : Failure} (ended : outcome = .error failure final)
    (silentEnded : silent = .error failure (law.twin final)) (allows : law.Allows final)
    (precedes : start.store.Precedes final.store) (fails : law.demand.fails failure) :
    law.Ends start post outcome silent := by
  subst ended
  refine ⟨allows, precedes, by simp, ?_, fun _ => silentEnded⟩
  intro reason machine same
  cases same
  exact fails

/-- What follows an action that ended goes on from there, on both sides. -/
theorem Ends.bind {first firstSilent : EStateM.Result Failure Machine α}
    {middle : Store → α → Prop}
    {last : Store → β → Prop} {action silentAction : Action α} {next : α → Action β}
    {silentStart : Machine} (ran : action start = first)
    (silentRan : silentAction silentStart = firstSilent)
    (ends : law.Ends start middle first firstSilent)
    (goesOn : ∀ value after, first = .ok value after →
      law.Ends after last (next value after) (next value (law.twin after))) :
    law.Ends start last ((action >>= next) start) ((silentAction >>= next) silentStart) := by
  cases first with
  | ok value after =>
    have alike := ends.alike (by simp)
    have later := goesOn value after rfl
    rw [Action.bind_of_ok ran, Action.bind_of_ok (silentRan.trans alike)]
    exact { later with precedes := ends.precedes.trans later.precedes }
  | error failure after =>
    rw [Action.bind_of_error ran]
    refine ⟨ends.allows, ends.precedes, by simp, ?_, ?_⟩
    · intro reason final ended
      cases ended
      exact ends.fails _ _ rfl
    · intro notGivenUp
      have alike := ends.alike fun final same => notGivenUp final (by cases same; rfl)
      rw [Action.bind_of_error (silentRan.trans alike)]
      rfl

end

/-- An action leads from an allowed machine to one, and goes the same way on the silent side. -/
def PermitsAt (law : Law) (action : Action α) (post : Store → α → Prop)
    (machine : Machine) : Prop :=
  law.Allows machine →
  law.Ends machine post (action machine) (action (law.twin machine))

/-- An action is permitted at every allowed machine whose store comes later than a given one. -/
def Permits (law : Law) (within : Store) (action : Action α)
    (post : Store → α → Prop) : Prop :=
  ∀ machine, within.Precedes machine.store → law.PermitsAt action post machine

section

variable {α : Type} {law : Law} {post : Store → α → Prop} {machine : Machine}

theorem permitsAt_look {view : Machine → α} (same : view (law.twin machine) = view machine)
    (holds : post machine.store (view machine)) :
    law.PermitsAt (fun machine => .ok (view machine) machine) post machine := by
  intro allows
  refine .of_ok rfl ?_ allows (.refl machine.store) holds
  simp only [same]

theorem permitsAt_lookUp {place : Option Position} {view : Store → Except ScopeFault α}
    (holds : ∀ value, view machine.store = .ok value → post machine.store value) :
    law.PermitsAt (Action.lookUp place view) post machine := by
  intro allows
  have silentRan : Action.lookUp place view (law.twin machine) =
      Action.mapAfter law.twin (Action.lookUp place view machine) := by
    unfold Action.lookUp
    rw [store_twin]
    split <;> rfl
  unfold Action.lookUp at silentRan ⊢
  cases seen : view machine.store with
  | ok value =>
    simp only [seen] at silentRan ⊢
    exact .of_ok rfl silentRan allows (.refl machine.store) (holds value seen)
  | error fault =>
    simp only [seen] at silentRan ⊢
    exact .of_error rfl silentRan allows (.refl machine.store)
      (law.demand.possible (.scope fault) trivial)

theorem permitsAt_changeGet {update : Store → α × Store}
    (keeps : law.AllowsIn machine.store (update machine.store).2)
    (precedes : machine.store.Precedes (update machine.store).2)
    (holds : post (update machine.store).2 (update machine.store).1) :
    law.PermitsAt (Action.changeGet update) post machine := by
  intro allows
  have ran : Action.changeGet update machine =
      .ok (update machine.store).1 { machine with store := (update machine.store).2 } :=
    rfl
  refine .of_ok ran ?_ (allows.withStore (keeps.mono precedes)) precedes holds
  simp only [Action.changeGet, store_twin, twin_withStore]

end

namespace Permits

variable {α β : Type} {law : Law} {within : Store} {post : Store → α → Prop}

theorem pure {value : α} (holds : ∀ store, within.Precedes store → post store value) :
    law.Permits within (Pure.pure value) post :=
  fun machine precedes allows =>
    .of_ok rfl rfl allows (.refl machine.store) (holds machine.store precedes)

theorem done (value : α) : law.Permits within (Pure.pure value) fun _ _ => True :=
  pure fun _ _ => trivial

theorem throw {failure : Failure} (fails : law.demand.fails failure) :
    law.Permits within (MonadExcept.throw failure : Action α) post :=
  fun machine _ allows => .of_error rfl rfl allows (.refl machine.store) fails

theorem raiseAt {fault : Fault} (token : Token) (allowed : law.demand.fault fault) :
    law.Permits within (Action.raiseAt token fault : Action α) post :=
  throw allowed

theorem bind {action : Action α} {next : α → Action β} {middle : Store → α → Prop}
    {post : Store → β → Prop} (permits : law.Permits within action middle)
    (nextPermits : ∀ later, within.Precedes later →
      ∀ value, middle later value → law.Permits later (next value) post) :
    law.Permits within (action >>= next) post := by
  intro machine precedes allows
  have ends := permits machine precedes allows
  apply Ends.bind rfl rfl ends
  intro value after ended
  have afterAllows := ends.allows
  have later := ends.precedes
  rw [ended] at afterAllows later
  exact nextPermits after.store (precedes.trans later) value (ends.holds value after ended) after
    (.refl _) afterAllows

theorem later {action : Action α} {after : Store} (permits : law.Permits within action post)
    (precedes : within.Precedes after) : law.Permits after action post :=
  fun machine isLater => permits machine (precedes.trans isLater)

theorem look {view : Machine → α} (same : ∀ machine, view (law.twin machine) = view machine)
    (holds : ∀ machine, law.Allows machine → post machine.store (view machine)) :
    law.Permits within (fun machine => .ok (view machine) machine) post :=
  fun machine _ allows => permitsAt_look (same machine) (holds machine allows) allows

theorem inspect {view : Store → α}
    (holds : ∀ store, law.AllowsStore store → post store (view store)) :
    law.Permits within (Action.inspect view) post :=
  look (fun machine => by rw [store_twin]) fun machine allows => holds machine.store allows.store

theorem glance (view : Store → α) : law.Permits within (Action.inspect view) fun _ _ => True :=
  inspect fun _ _ => trivial

theorem lookUp {place : Option Position} {view : Store → Except ScopeFault α}
    (holds : ∀ store value, law.AllowsStore store → view store = .ok value →
      post store value) :
    law.Permits within (Action.lookUp place view) post :=
  fun _ _ allows => permitsAt_lookUp (fun value found => holds _ value allows.store found) allows

theorem search (place : Option Position) (view : Store → Except ScopeFault α) :
    law.Permits within (Action.lookUp place view) fun _ _ => True :=
  lookUp fun _ _ _ _ => trivial

theorem changeGet {update : Store → α × Store}
    (keeps : ∀ store, within.Precedes store → law.AllowsStore store →
      law.AllowsIn store (update store).2)
    (precedes : ∀ store : Store, store.Precedes (update store).2)
    (holds : ∀ store : Store, post (update store).2 (update store).1) :
    law.Permits within (Action.changeGet update) post :=
  fun machine isLater allows =>
    permitsAt_changeGet (keeps machine.store isLater allows.store) (precedes machine.store)
      (holds machine.store) allows

theorem change {update : Store → Store} (keeps :
      ∀ store, within.Precedes store → law.AllowsStore store →
        law.AllowsIn store (update store))
    (precedes : ∀ store : Store, store.Precedes (update store)) :
    law.Permits within (Action.change update) fun _ _ => True := by
  intro machine isLater allows
  have kept := (keeps machine.store isLater allows.store).mono (precedes machine.store)
  refine .of_ok rfl ?_ (allows.withStore kept) (precedes machine.store) trivial
  simp only [Action.change, twin_modifyStore]

theorem changeWorld {update : World → World}
    (apart : ∀ world files, update (world.withFiles files) = (update world).withFiles files) :
    law.Permits within (Action.changeWorld update) fun _ _ => True := by
  intro machine _ allows
  have sameWorld : update machine.world = (update machine.world).withFiles machine.world.files :=
    apart machine.world machine.world.files
  have sameFiles : (update machine.world).files = machine.world.files := by
    rw [sameWorld]
    rfl
  have changed : law.Allows (machine.modifyWorld update) :=
    allows.of_same allows.store allows.sources rfl rfl sameFiles
  refine .of_ok rfl ?_ changed (.refl machine.store) trivial
  unfold Action.changeWorld Machine.modifyWorld twin
  split
  · rfl
  · rename_i files isSilent
    have sameHushed : update (machine.hushed files).world =
        (update machine.world).withFiles files :=
      apart machine.world files
    rw [sameHushed]
    rfl

/-- A trace is written to a file that the silent side does not have. -/
theorem trace {level : Nat} {line : Store → String} (isTrace : 0 < level) :
    law.Permits within (Action.trace level line) fun _ _ => True := by
  intro machine _ allows
  cases isSilent : law.silent with
  | none =>
    -- Without a silent side a law looks neither at the trace nor at the files.
    obtain ⟨world, trace, ran⟩ : ∃ world trace, Action.trace level line machine =
        .ok () { machine with world := world, trace := trace } := by
      unfold Action.trace Machine.addTrace
      split
      · split <;> exact ⟨_, _, rfl⟩
      · exact ⟨_, _, rfl⟩
    refine .of_ok ran ?_ ⟨allows.store, allows.registry, allows.sources, by simp [isSilent]⟩
      (.refl machine.store) trivial
    simpa only [twin, isSilent] using ran
  | some files =>
    obtain ⟨opened, stands⟩ := allows.traces files isSilent
    obtain ⟨file, isOpen⟩ := Option.isSome_iff_exists.mp opened
    have silentRan : Action.trace level line (law.twin machine) = .ok () (law.twin machine) := by
      have level_zero : (law.twin machine).trace.level = 0 := by
        simp only [twin, isSilent, Machine.hushed]
      unfold Action.trace
      rw [level_zero, if_neg (by omega)]
    by_cases isTraced : level ≤ machine.trace.level
    · obtain ⟨written, later, traced, kept⟩ :=
        machine.exists_addTrace isOpen (line machine.store)
      have ran : Action.trace level line machine = .ok () (machine.addTrace (line machine.store)) :=
        if_pos isTraced
      rw [traced] at ran
      refine .of_ok ran ?_ ⟨allows.store, allows.registry, allows.sources, ?_⟩
        (.refl machine.store) trivial
      · rw [silentRan]
        simp only [twin, isSilent]
        rfl
      · exact fun each isEach => ⟨rfl, (allows.traces each isEach).stands.trans kept⟩
    · exact .of_ok (if_neg isTraced) silentRan allows (.refl machine.store) trivial

/-- Only the silent side of a law depends on what stands in the files. -/
theorem changeFiles {update : World → World} (isLoud : law.silent = none) :
    law.Permits within (Action.changeWorld update) fun _ _ => True := by
  intro machine _ allows
  refine .of_ok rfl ?_ ⟨allows.store, allows.registry, allows.sources, by simp [isLoud]⟩
    (.refl machine.store) trivial
  unfold Action.changeWorld twin
  rw [isLoud]

end Permits

/-- A definition in a scope is permitted if the law allows the scope that comes of it. -/
theorem permitsAt_define {law : Law} {place : Option Position} {ref : Ref .scope}
    {definition : Scope → Except ScopeFault Scope} {machine : Machine}
    (keeps : ∀ defined, definition (machine.store.scope ref) = .ok defined →
      law.AllowsScope machine.store defined) :
    law.PermitsAt (Action.define place ref definition) (fun _ _ => True) machine := by
  intro allows
  have looked : law.PermitsAt (Action.lookUp place fun store => definition (store.scope ref))
      law.AllowsScope machine :=
    permitsAt_lookUp keeps
  have ends := looked allows
  apply Ends.bind rfl rfl ends
  intro defined after ended
  have sameAfter : after = machine := by
    unfold Action.lookUp at ended
    split at ended
    · cases ended
      rfl
    · cases ended
  subst sameAfter
  have kept := @AllowsIn.setScope ref _ _ _ allows.store _ (ends.holds defined after ended)
  have precedes := Store.Precedes.setScope after.store ref defined
  refine .of_ok rfl ?_ (allows.withStore (kept.mono precedes)) precedes trivial
  simp only [Action.change, twin_modifyStore]

/-- What a law says of the result of a task. -/
def result (law : Law) : (task : Task) → Store → task.Result → Prop
  | .evaluate _, store, value => law.value store value
  | .execute _, store, completion => law.value store completion.outcome.value

/-- The law allows the task and the machine of a visit. -/
structure Admits (law : Law) (visit : Visit) : Prop where
  task : law.demand.task visit.task
  machine : law.Allows visit.machine

/-- The tasks of an evaluator keep to a law; statements break only with their own keywords. -/
structure Governs (law : Law) (evaluator : Evaluator) : Prop where
  answers : ∀ visit : Visit, law.Admits visit →
    law.Ends visit.machine (law.result visit.task) (evaluator.answer visit)
      (evaluator.perform visit.frame visit.task (law.twin visit.machine))
  breaks : evaluator.BreaksByText

end Law

/-- Code keeps to a law at a machine, and so do the visits at which it hands over tasks. -/
def ObeysAt (law : Law) (actual : Evaluator) (code : Evaluator → Action α)
    (post : Store → α → Prop) (machine : Machine) : Prop :=
  law.Allows machine →
  ∃ visits,
    Attends actual code machine visits ∧
      (∀ visit ∈ visits, law.Admits visit) ∧
      law.Ends machine post (code actual machine) (code actual (law.twin machine))

/-- Code keeps to a law wherever it starts with a store that comes later than a given one. -/
def Obeys (law : Law) (actual : Evaluator) (within : Store) (code : Evaluator → Action α)
    (post : Store → α → Prop) : Prop :=
  ∀ machine, within.Precedes machine.store → ObeysAt law actual code post machine

namespace Obeys

variable {α β : Type} {law : Law} {actual : Evaluator} {within : Store} {action : Action α}
  {post middle : Store → α → Prop} {code : Evaluator → Action α}
  {cont : α → Evaluator → Action β}

theorem aloneAt {machine : Machine} (permits : law.PermitsAt action post machine) :
    ObeysAt law actual (fun _ => action) post machine :=
  fun allows => ⟨[], .alone action, by simp, permits allows⟩

theorem alone (permits : law.Permits within action post) :
    Obeys law actual within (fun _ => action) post :=
  fun machine precedes => aloneAt (permits machine precedes)

theorem congr {written : Evaluator → Action α} (obeys : Obeys law actual within written post)
    (same : ∀ evaluator, evaluator.rounds = actual.rounds →
      code evaluator = written evaluator) :
    Obeys law actual within code post := by
  intro machine precedes allows
  obtain ⟨visits, attends, admitted, ends⟩ := obeys machine precedes allows
  rw [← same actual rfl] at ends
  have sameHere := fun evaluator isSame => congrFun (same evaluator isSame) machine
  exact ⟨visits, attends.congr sameHere, admitted, ends⟩

/-- Code in sequence; what follows may count on where the machine has come to. -/
theorem bindAt {post : Store → β → Prop} {machine : Machine}
    (obeys : ObeysAt law actual code middle machine)
    (next : ∀ value after, code actual machine = .ok value after →
      machine.store.Precedes after.store → middle after.store value →
      ObeysAt law actual (cont value) post after) :
    ObeysAt law actual
      (fun evaluator => code evaluator >>= fun value => cont value evaluator) post
      machine := by
  intro allows
  obtain ⟨visits, attends, admitted, ends⟩ := obeys allows
  cases outcome : code actual machine with
  | ok value after =>
    have afterAllows := ends.allows
    have precedes := ends.precedes
    simp only [outcome, Action.after] at afterAllows precedes
    obtain ⟨laterVisits, continues, laterAdmitted, later⟩ :=
      next value after outcome precedes (ends.holds value after outcome) afterAllows
    refine ⟨visits ++ laterVisits, attends.bind_of_ok outcome continues, ?_, ?_⟩
    · exact List.forall_mem_append.mpr ⟨admitted, laterAdmitted⟩
    · apply Law.Ends.bind rfl rfl ends
      intro result final ended
      rw [outcome] at ended
      cases ended
      exact later
  | error failure after =>
    refine ⟨visits, attends.bind_of_error outcome, admitted, ?_⟩
    apply Law.Ends.bind rfl rfl ends
    intro value final ended
    rw [outcome] at ended
    cases ended

theorem bind {post : Store → β → Prop} (obeys : Obeys law actual within code middle)
    (next : ∀ later, within.Precedes later →
      ∀ value, middle later value → Obeys law actual later (cont value) post) :
    Obeys law actual within
      (fun evaluator => code evaluator >>= fun value => cont value evaluator) post :=
  fun machine precedes =>
    bindAt (obeys machine precedes) fun value after _ later holds =>
      next after.store (precedes.trans later) value holds after (.refl _)

theorem behind {post : Store → β → Prop} (permits : law.Permits within action middle)
    (next : ∀ later, within.Precedes later →
      ∀ value, middle later value → Obeys law actual later (cont value) post) :
    Obeys law actual within
      (fun evaluator => action >>= fun value => cont value evaluator) post :=
  bind (alone permits) next

theorem raiseAt_bind {token : Token} {fault : Fault} {post : Store → β → Prop}
    (allowed : law.demand.fault fault) : Obeys law actual within
      (fun evaluator => Action.raiseAt token fault >>= fun value => cont value evaluator)
      post :=
  alone (.raiseAt token allowed)

theorem perform (governs : law.Governs actual) (frame : Frame) {task : Task}
    (allowed : law.demand.task task) :
    Obeys law actual within (·.perform frame task) (law.result task) := by
  intro machine _ allows
  have admits : law.Admits ⟨frame, task, machine⟩ := ⟨allowed, allows⟩
  refine ⟨[⟨frame, task, machine⟩], .perform frame task, by simpa using admits, ?_⟩
  exact governs.answers ⟨frame, task, machine⟩ admits

theorem around {wrap : Action α → Action β} {inside : Store → α → Prop}
    {post : Store → β → Prop}
    (obeys : Obeys law actual within code inside) (start : Machine → Machine)
    (starts : ∀ machine, law.Allows machine → law.Allows (start machine))
    (keeps : ∀ machine, (start machine).store = machine.store)
    (startsAlike : ∀ machine, start (law.twin machine) = law.twin (start machine))
    (goesOn : ∀ action machine, wrap action machine =
      wrap (fun _ => action (start machine)) machine)
    (ends : ∀ machine outcome, law.Allows machine →
        law.Ends (start machine) inside outcome (Action.mapAfter law.twin outcome) →
        law.Ends machine post (wrap (fun _ => outcome) machine)
          (wrap (fun _ => Action.mapAfter law.twin outcome) (law.twin machine)))
    (passes : ∀ machine failure middle, failure.IsHard →
        ∃ final, wrap (fun _ => .error failure middle) machine = .error failure final) :
    Obeys law actual within (fun evaluator => wrap (code evaluator)) post := by
  intro machine precedes allows
  rw [← keeps machine] at precedes
  obtain ⟨visits, attends, admitted, inner⟩ :=
    obeys (start machine) precedes (starts machine allows)
  refine ⟨visits, ?_, admitted, ?_⟩
  · exact attends.around (fun outcome => wrap (fun _ => outcome) machine)
      (fun evaluator => goesOn (code evaluator) machine) (passes machine)
  · have outer := ends machine _ allows { inner with alike := fun _ => rfl }
    simp only [goesOn (code actual) machine, goesOn (code actual) (law.twin machine), startsAlike]
    refine { outer with alike := ?_ }
    intro notGivenUp
    rw [inner.alike, ← outer.alike notGivenUp]
    -- Giving up is a hard failure, which would have left the outer code too.
    intro middle gaveUp
    obtain ⟨final, left⟩ := passes machine .unexpectedNode middle (by simp [Failure.IsHard])
    rw [gaveUp] at notGivenUp
    exact notGivenUp final left

theorem keepingContext (ref : Ref .scope) (obeys : Obeys law actual within code post)
    (stable : ∀ before after value, before.Precedes after → post before value →
      post after value) :
    Obeys law actual within (fun evaluator => Action.keepingContext ref (code evaluator)) post := by
  have restores : ∀ machine final : Machine, law.Allows machine →
      machine.store.Precedes final.store → law.Allows final → law.Allows
        (final.modifyStore (·.setContext ref (machine.store.scope ref).context)) := by
    intro machine final allows precedes finalAllows
    apply finalAllows.withStore
    have context := ((allows.store.scopes ref).mono precedes).context
    exact (finalAllows.store.modifyScope ((finalAllows.store.scopes ref).setContext context)).mono
      (.modifyScope final.store ref _)
  apply obeys.around id (fun _ allows => allows) (fun _ => rfl) (fun _ => rfl) (fun _ _ => rfl)
  · intro machine outcome allows ends
    have precedes := ends.precedes
    cases outcome with
    | ok value final =>
      have restored := Store.Precedes.modifyScope final.store ref fun scope =>
        { scope with context := (machine.store.scope ref).context }
      refine .of_ok rfl ?_ (restores machine final allows precedes ends.allows)
        (precedes.trans restored) (stable _ _ _ restored (ends.holds value final rfl))
      simp only [Action.keepingContext, Action.mapAfter, Law.store_twin, Law.twin_modifyStore]
    | error failure final =>
      refine .of_error rfl ?_ (restores machine final allows precedes ends.allows)
        (precedes.trans (.modifyScope final.store ref _)) (ends.fails failure final rfl)
      simp only [Action.keepingContext, Action.mapAfter, Law.store_twin, Law.twin_modifyStore]
  · exact fun machine failure middle _ => ⟨_, rfl⟩

theorem inCall (site : CallSite) (obeys : Obeys law actual within code post) :
    Obeys law actual within (fun evaluator => Action.inCall site (code evaluator)) post := by
  apply obeys.around id (fun _ allows => allows) (fun _ => rfl) (fun _ => rfl) (fun _ _ => rfl)
  · intro machine outcome allows ends
    cases outcome with
    | ok value final => exact .of_ok rfl rfl ends.allows ends.precedes (ends.holds value final rfl)
    | error failure final =>
      have fails := ends.fails failure final rfl
      cases failure <;> exact .of_error rfl rfl ends.allows ends.precedes fails
  · exact fun machine _ middle isHard => isHard.inCall site machine middle

theorem whileImporting (path : String) (obeys : Obeys law actual within code post) :
    Obeys law actual within
      (fun evaluator => Evaluator.whileImporting path (code evaluator)) post := by
  apply obeys.around (fun machine => { machine with importing := path :: machine.importing })
    (fun _ allows => allows.withImporting _) (fun _ => rfl)
    (fun machine => by simp only [Law.importing_twin, Law.twin_withImporting]) (fun _ _ => rfl)
  · intro machine outcome allows ends
    cases outcome with
    | ok value final =>
      refine .of_ok rfl ?_ (ends.allows.withImporting _) ends.precedes (ends.holds value final rfl)
      simp only [Evaluator.whileImporting, Action.mapAfter, Law.importing_twin,
        Law.twin_withImporting]
    | error failure final =>
      refine .of_error rfl ?_ (ends.allows.withImporting _) ends.precedes
        (ends.fails failure final rfl)
      simp only [Evaluator.whileImporting, Action.mapAfter, Law.importing_twin,
        Law.twin_withImporting]
  · exact fun machine failure middle _ => ⟨_, rfl⟩

theorem writeLine_permits (line : String) :
    law.Permits within (Action.changeWorld (·.writeLine line)) fun _ _ => True :=
  .changeWorld fun _ _ => rfl

theorem attempt (obeys : Obeys law actual within code post) :
    Obeys law actual within (fun evaluator => Action.attempt (code evaluator))
      fun store result => ∀ value ∈ result, post store value := by
  apply obeys.around id (fun _ allows => allows) (fun _ => rfl) (fun _ => rfl) (fun _ _ => rfl)
  · intro machine outcome allows ends
    have finalAllows := ends.allows
    cases outcome with
    | ok value final =>
      refine .of_ok rfl rfl finalAllows ends.precedes ?_
      rintro _ ⟨⟩
      exact ends.holds value final rfl
    | error failure final =>
      have fails := ends.fails failure final rfl
      cases failure with
      | raised error =>
        have written := writeLine_permits error.message final (.refl _) finalAllows
        have silentWritten := written.alike (by simp [Action.changeWorld])
        refine .of_ok rfl ?_ written.allows ends.precedes (by simp)
        have sameWorld : (law.twin final).modifyWorld (·.writeLine error.message) =
            law.twin (final.modifyWorld (·.writeLine error.message)) := by
          simpa [Action.changeWorld, Action.mapAfter] using silentWritten
        simp only [Action.attempt, Action.mapAfter, sameWorld]
      | _ => exact .of_error rfl rfl finalAllows ends.precedes fails
  · intro machine failure middle isHard
    cases failure with
    | raised error => exact (isHard error rfl).elim
    | _ => exact ⟨_, rfl⟩

end Obeys

end ArrowScript

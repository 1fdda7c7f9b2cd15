import ArrowScript.Proofs.Evaluation.Blindness
import ArrowScript.Proofs.Scope.Lexical

namespace ArrowScript

/-!
# Private names are out of reach

No task uses a private name from outside the scope of the name, and none uses
one that was imported.

That no other way leads to a private name is said without a list of ways.  A
task reaches a cell if the content of the cell makes a difference to what the
task does by itself, whatever is nested inside it does.  No task reaches a
private cell from outside its scope, and none reaches one that was imported.

Runs go on alike as well, whatever such a cell holds: every run in the case of
an imported cell, else every run that is stopped before it enters the scope of
the cell.
-/

/--
A task that is visited uses the entry in a cell, as it stands in a store: it
reads, pushes to or assigns to a variable, names a group, reads or assigns to a
member of a group, or calls a function.  An assignment looks at its target
before its value is evaluated and writes to it afterwards; a call evaluates its
arguments before it looks for the function.  Whatever else uses names does so
in tasks that are nested in it.
-/
inductive Uses (level : Nat) (visit : Visit) :
    Store → (cell : Cell) → Entry cell.kind.Content → Prop
  | resolved {name : Token} {store : Store} {owner : Ref .scope} {entry : Entry Value} :
      Resolves level visit name store owner entry →
      Uses level visit store ⟨owner, .variableName, name.lexeme⟩ entry
  | group {name : Token} {owner : Ref .scope} {entry : Entry (Ref .group)} :
      visit.task = .evaluate (.groupName name) →
      visit.machine.store.visible .groupName Scope.groups visit.frame.scope name.lexeme =
        .ok (owner, entry) →
      Uses level visit visit.machine.store ⟨owner, .groupName, name.lexeme⟩ entry
  | member
      {below : Nat}
      {base : Expr}
      {name : Token}
      {group : Group}
      {middle : Machine}
      {kind : NameKind}
      {entry : Entry kind.Content} :
      level = below + 1 →
      visit.task = .evaluate (.groupMember base name) →
      (evaluator below).evaluateGroup visit.frame base visit.machine = .ok group middle →
      middle.store.member kind (Scope.names kind) group.scope visit.frame.scope name.lexeme =
        .ok entry →
      Uses level visit middle.store ⟨group.scope, kind, name.lexeme⟩ entry
  | replacedMember
      {below : Nat}
      {base expression : Expr}
      {name : Token}
      {group : Group}
      {middle : Machine}
      {entry : Entry Value} :
      level = below + 1 →
      visit.task = .evaluate (.assign (.groupMember base name) expression) →
      (evaluator below).evaluateGroup visit.frame base visit.machine = .ok group middle →
      middle.store.member .variableName Scope.bindings group.scope visit.frame.scope
          name.lexeme = .ok entry →
      Uses level visit middle.store ⟨group.scope, .variableName, name.lexeme⟩ entry
  | writtenMember
      {below : Nat}
      {base expression : Expr}
      {name : Token}
      {group : Group}
      {middle final : Machine}
      {entry replaced : Entry Value}
      {value : Value} :
      level = below + 1 →
      visit.task = .evaluate (.assign (.groupMember base name) expression) →
      (evaluator below).evaluateGroup visit.frame base visit.machine = .ok group middle →
      middle.store.member .variableName Scope.bindings group.scope visit.frame.scope
          name.lexeme = .ok replaced →
      (evaluator below).evaluateReplacing visit.frame (some replaced.value) expression middle =
        .ok value final →
      (final.store.scope group.scope).bindings.lookup name.lexeme = some entry →
      Uses level visit final.store ⟨group.scope, .variableName, name.lexeme⟩ entry
  | function
      {below : Nat}
      {name : Token}
      {arguments : List Expr}
      {values : List Value}
      {middle : Machine}
      {owner : Ref .scope}
      {entry : Entry Function} :
      level = below + 1 →
      visit.task = .evaluate (.call (.functionName name) arguments) →
      (evaluator below).evaluateArguments visit.frame arguments visit.machine =
        .ok values middle →
      middle.store.visible .functionName Scope.functions visit.frame.scope name.textValue =
        .ok (owner, entry) →
      Uses level visit middle.store ⟨owner, .functionName, name.textValue⟩ entry
  | memberFunction
      {below : Nat}
      {base : Expr}
      {name : Token}
      {arguments : List Expr}
      {values : List Value}
      {middle final : Machine}
      {group : Group}
      {entry : Entry Function} :
      level = below + 1 → visit.task = .evaluate (.call (.groupMember base name) arguments) →
      (evaluator below).evaluateArguments visit.frame arguments visit.machine =
        .ok values middle →
      (evaluator below).evaluateGroup visit.frame base middle = .ok group final →
      final.store.member .functionName Scope.functions group.scope visit.frame.scope
          name.textValue = .ok entry →
      Uses level visit final.store ⟨group.scope, .functionName, name.textValue⟩ entry

/-- A reader may use an entry: it is public, or it was not imported and the reader is inside. -/
def Entry.Permits (entry : Entry α) (store : Store) (reader owner : Ref .scope) : Prop :=
  entry.isPublic = false → entry.isForeign = false ∧ store.isWithin reader owner = true

namespace Store

variable {store : Store} {reader owner : Ref .scope}

theorem permits_of_visible {kind : NameKind} {names : Scope → Namespace α}
    {name : String} {entry : Entry α}
    (found : store.visible kind names reader name = .ok (owner, entry)) :
    entry.Permits store reader owner := by
  obtain ⟨around, -, shown⟩ := visible_eq_ok found
  intro isPrivate
  refine ⟨?_, ?_⟩
  · simpa [Entry.isHidden, isPrivate] using shown
  · simpa [isWithin] using around

/-- A lookup that goes on with an entry was shown the one that stands nearest. -/
theorem visible_of_bind_ok {kind : NameKind} {names : Scope → Namespace α}
    {name : String} {entry : Entry α} {next : Ref .scope × Entry α → Except ScopeFault β}
    {result : β} (found : store.find? names reader name = some (owner, entry))
    (ran : store.visible kind names reader name >>= next = .ok result) :
    store.visible kind names reader name = .ok (owner, entry) := by
  unfold visible at ran ⊢
  rw [found] at ran ⊢
  cases hidden : entry.isHidden with
  | true =>
    simp only [hidden, ↓reduceIte] at ran
    cases ran
  | false => simp only [hidden, Bool.false_eq_true, ↓reduceIte]

end Store

variable {visit : Visit} {cell : Cell} {frame : Frame} {machine : Machine} {declared : Option Site}
  {isForeign : Bool} {start : Machine}

/-- A private entry is used only inside its scope, and only if it was not imported. -/
theorem Uses.permits {level : Nat} {store : Store} {entry : Entry cell.kind.Content}
    (uses : Uses level visit store cell entry) :
    entry.Permits store visit.frame.scope cell.scope := by
  cases uses with
  | resolved resolves =>
    cases resolves with
    | read reads named found =>
      exact Store.permits_of_visible (Store.visible_of_bind_ok found named)
    | assign isNested isAssignment named ran owned found =>
      exact Store.permits_of_visible (Store.visible_of_bind_ok found owned)
  | group isName found => exact Store.permits_of_visible found
  | member isNested isMember opened given => exact (Store.member_eq_ok given).2
  | replacedMember isNested isAssignment opened given => exact (Store.member_eq_ok given).2
  | @writtenMember _ _ _ name group middle final entry replaced _ _ _ _ given ran found =>
    obtain ⟨foundBefore, permitted⟩ := Store.member_eq_ok given
    have grows : middle.store.Grows final.store :=
      .of_extends (progress_of_evaluateReplacing ran).extends
    have traitsBefore : middle.store.traits? ⟨group.scope, .variableName, name.lexeme⟩ =
        some replaced.traits :=
      congrArg (Option.map Entry.traits) foundBefore
    have traitsAfter :
        final.store.traits? ⟨group.scope, .variableName, name.lexeme⟩ = some entry.traits :=
      congrArg (Option.map Entry.traits) found
    have same : replaced.traits = entry.traits :=
      Option.some.inj ((grows.traits?_eq traitsBefore).symm.trans traitsAfter)
    have samePublic : replaced.isPublic = entry.isPublic := congrArg (·.1) same
    have sameForeign : replaced.isForeign = entry.isForeign := congrArg (·.2.1) same
    intro isPrivate
    obtain ⟨isOwn, within⟩ := permitted (samePublic.trans isPrivate)
    exact ⟨sameForeign.symm.trans isOwn, grows.isWithin within⟩
  | function isNested isCall ran found => exact Store.permits_of_visible found
  | memberFunction isNested isCall ran opened given => exact (Store.member_eq_ok given).2

/-- Put a content in a cell. -/
def Machine.put (cell : Cell) (content : cell.kind.Content) (machine : Machine) : Machine :=
  machine.modifyStore (Store.put cell content)

/--
A task reaches a cell whose entry has the given traits: it reads, overwrites or
calls what the cell holds.  What is nested in the task goes on alike with
another content in the cell, be it there at the start or put there on the way,
and yet the task does not.
-/
def Reaches (frame : Frame) (task : Task) (machine : Machine) (cell : Cell)
    (traits : Bool × Bool × Option Site) : Prop :=
  ∃ (content : cell.kind.Content) (left right : Evaluator) (parted : Bool),
    Veil.Covers ⟨machine.store, cell, traits, content⟩ left right ∧
      ¬ Veil.BlindAt ⟨machine.store, cell, traits, content⟩ parted machine
        (left.step frame task) (right.step frame task)

/-- A task that reaches a private cell runs inside its scope, and the cell was not imported. -/
theorem Reaches.inside {task : Task}
    (reaches : Reaches frame task machine cell (false, isForeign, declared))
    (existing : machine.store.HasScope frame.scope)
    (elsewhere : task.imports = true → cell.scope ≠ machine.nextScope) :
    isForeign = false ∧ machine.store.isWithin frame.scope cell.scope = true := by
  obtain ⟨content, left, right, parted, covers, notBlind⟩ := reaches
  apply Classical.byContradiction
  intro denied
  apply notBlind
  apply covers.step _ elsewhere
  refine ⟨isForeign, declared, rfl, ?_⟩
  cases isForeign with
  | true => exact .inl rfl
  | false =>
    refine .inr ⟨existing, ?_⟩
    exact Bool.eq_false_iff.mpr fun within => denied ⟨rfl, within⟩

/-- The evaluator that gives up wherever it may not run. -/
def evaluatorWhere (may : Store → Ref .scope → Bool) : Nat → Evaluator
  | 0 => evaluator 0
  | depth + 1 =>
    { rounds := depth
      evaluate := fun frame expr machine =>
        if may machine.store frame.scope then
          (evaluatorWhere may depth).evaluateExpression frame expr machine
        else .error .exhausted machine
      execute := fun frame stmt machine =>
        if may machine.store frame.scope then
          (evaluatorWhere may depth).executeStatement frame stmt machine
        else .error .exhausted machine }

theorem evaluatorWhere_always (depth : Nat) :
    evaluatorWhere (fun _ _ => true) depth = evaluator depth := by
  induction depth with
  | zero => rfl
  | succ depth ih =>
    unfold evaluatorWhere
    rw [ih]
    rfl

section

variable {may : Store → Ref .scope → Bool}

theorem evaluatorWhere_succ_perform (depth : Nat) (frame : Frame) (task : Task)
    (machine : Machine) : (evaluatorWhere may (depth + 1)).perform frame task machine =
      if may machine.store frame.scope then (evaluatorWhere may depth).step frame task machine
      else .error .exhausted machine := by
  cases task <;> rfl

theorem evaluatorWhere_steady (depth : Nat) : (evaluatorWhere may depth).Steady := by
  induction depth with
  | zero => exact evaluator_steady 0
  | succ depth ih =>
    refine ih.of_answers fun visit => ?_
    unfold Evaluator.answer
    rw [evaluatorWhere_succ_perform]
    split
    · exact .inl rfl
    · exact .inr ⟨_, rfl⟩

/-- An evaluator whose tasks go on alike behind a veil covers itself. -/
theorem Evaluator.Faithful.covers {evaluator : Evaluator} {veil : Veil}
    (faithful : evaluator.Faithful) (commutes : ∀ frame task machine, veil.Hides machine.store →
      evaluator.perform frame task (veil.fill machine) =
        Action.mapAfter veil.fill (evaluator.perform frame task machine)) :
    veil.Covers evaluator evaluator := by
  have blind :
      ∀ frame task, veil.Blind (evaluator.perform frame task) (evaluator.perform frame task) := by
    intro frame task
    apply Veil.Blind.own
    · exact fun machine => .of_extends (faithful ⟨frame, task, machine⟩).extends
    · exact commutes frame task
  exact
    ⟨rfl, fun frame expr => blind frame (.evaluate expr),
      fun frame stmt => blind frame (.execute stmt)⟩

theorem Veil.Ends.eq_mapAfter {veil : Veil}
    {left right : EStateM.Result Failure Machine α} (ends : veil.Ends true start left right) :
    right = Action.mapAfter veil.fill left := by
  cases ends with
  | ok still grows relates =>
    cases still rfl
    cases relates
    rfl
  | error still grows relates =>
    cases still rfl
    cases relates
    rfl

/-- A run goes on alike if it keeps to scopes that are barred from the cell. -/
theorem evaluatorWhere_put {cell : Cell} {traits : Bool × Bool × Option Site}
    (content : cell.kind.Content) (barred : ∀ store reader, may store reader = true →
      Veil.Bars ⟨store, cell, traits, content⟩ reader)
    (same : ∀ store reader, may (store.put cell content) reader = may store reader) (depth : Nat)
    (frame : Frame) (task : Task) (machine : Machine)
    (filled : machine.store.traits? cell = some traits) :
    (evaluatorWhere may depth).perform frame task (machine.put cell content) =
      Action.mapAfter (·.put cell content)
        ((evaluatorWhere may depth).perform frame task machine) := by
  induction depth generalizing frame task machine with
  | zero => cases task <;> rfl
  | succ depth ih =>
    have sameHere : may (machine.put cell content).store frame.scope = _ :=
      same machine.store frame.scope
    rw [evaluatorWhere_succ_perform, evaluatorWhere_succ_perform, sameHere]
    split
    · rename_i allowed
      have covers : Veil.Covers ⟨machine.store, cell, traits, content⟩
          (evaluatorWhere may depth) (evaluatorWhere may depth) :=
        (evaluatorWhere_steady depth).faithful.covers fun frame task machine hides =>
          ih frame task machine hides.traits
      have notNext : cell.scope ≠ machine.nextScope := by
        intro isNext
        have existing := Store.hasScope_of_traits? filled
        rw [isNext] at existing
        exact Nat.lt_irrefl _ existing
      have blind : Veil.BlindAt ⟨machine.store, cell, traits, content⟩ true machine
          ((evaluatorWhere may depth).step frame task)
          ((evaluatorWhere may depth).step frame task) :=
        covers.step (barred machine.store frame.scope allowed) fun _ => notNext
      exact (blind _ (.parted ⟨.refl machine.store, filled⟩)).eq_mapAfter
    · rfl

end

/-- A reader is there and stands outside a scope. -/
def Store.isOutside (store : Store) (scope reader : Ref .scope) : Bool :=
  decide (reader.index < store.scopes.size) && !store.isWithin reader scope

/-- The evaluator that gives up where a scope would be entered. -/
def evaluatorOutside (scope : Ref .scope) : Nat → Evaluator :=
  evaluatorWhere (·.isOutside scope)

theorem evaluatorOutside_put (content : cell.kind.Content) (depth : Nat)
    (frame : Frame) (task : Task) (machine : Machine)
    (filled : machine.store.traits? cell = some (false, isForeign, declared)) :
    (evaluatorOutside cell.scope depth).perform frame task (machine.put cell content) =
      Action.mapAfter (·.put cell content)
        ((evaluatorOutside cell.scope depth).perform frame task machine) := by
  apply evaluatorWhere_put content _ _ depth frame task machine filled
  · intro store reader allowed
    simp only [Store.isOutside, Bool.and_eq_true, decide_eq_true_eq,
      Bool.not_eq_eq_eq_not, Bool.not_true] at allowed
    obtain ⟨existing, outside⟩ := allowed
    exact ⟨isForeign, declared, rfl, .inr ⟨existing, outside⟩⟩
  · intro store reader
    simp only [Store.isOutside, Store.size_put, Store.isWithin_put]

/-- What an imported private name stands for makes no difference to any run. -/
theorem evaluator_put (content : cell.kind.Content) (depth : Nat) (frame : Frame) (task : Task)
    (machine : Machine) (filled : machine.store.traits? cell = some (false, true, declared)) :
    (evaluator depth).perform frame task (machine.put cell content) =
      Action.mapAfter (·.put cell content) ((evaluator depth).perform frame task machine) := by
  rw [← evaluatorWhere_always]
  apply evaluatorWhere_put content _ _ depth frame task machine filled
  · exact fun store reader _ => ⟨true, declared, rfl, .inl rfl⟩
  · exact fun store reader => rfl

theorem Executes.hasScope {body : Body}
    (executes : Executes frame body start visit) (existing : start.store.HasScope frame.scope) :
    visit.machine.store.HasScope visit.frame.scope := by
  cases executes with
  | statement progress mem => exact Nat.lt_of_lt_of_le existing progress.size_le

theorem Enters.hasScope {outline : List Element}
    (enters : Enters frame outline start visit) (existing : start.store.HasScope frame.scope) :
    visit.machine.store.HasScope visit.frame.scope := by
  cases enters with
  | evaluates progress smaller => exact Nat.lt_of_lt_of_le existing progress.size_le
  | executes progress opens executes =>
    obtain ⟨scope, gains, isNext, -⟩ := opens.exists_gains
    apply executes.hasScope
    rw [isNext]
    exact Store.hasScope_of_push_new gains.scopes

theorem Visited.hasScope {depth level : Nat} {text : String}
    (visited : Visited depth (·.runFresh text) machine level visit) :
    visit.machine.store.HasScope visit.frame.scope := by
  induction visited with
  | first calls =>
    obtain ⟨inner, started, loads, executes⟩ := calls.executes_of_runFresh
    apply executes.hasScope
    rw [loads.frame]
    exact Store.hasScope_of_push_new loads.scopes
  | next _ calls ih => exact calls.step_enters.hasScope ih

/--
Private names are used only where they may be.  In a run of a text in a new
outermost scope, a task that uses a private entry runs inside the scope that
has it, and the entry was not imported.

The same holds if what a private name stands for makes a difference to a task in
any way at all.  The only scope that is left out is the one that an import makes
for a file, whose names it takes over.

Taken together, the tasks outside the scope of a private name go on alike
whatever it stands for, and leave that as it is.  If the name was imported, so
do all tasks.
-/
theorem private_names_mediated
    (depth : Nat)
    (cell : Cell)
    (content : cell.kind.Content)
    (isForeign : Bool)
    (declared : Option Site) :
    (∀ text start level visit store (entry : Entry cell.kind.Content),
        Visited depth (·.runFresh text) start level visit →
        Uses level visit store cell entry →
        entry.isPublic = false →
        entry.isForeign = false ∧
          store.isWithin visit.frame.scope cell.scope = true) ∧
      (∀ text start level visit,
        Visited depth (·.runFresh text) start level visit →
        (visit.task.imports = true → cell.scope ≠ visit.machine.nextScope) →
        Reaches visit.frame visit.task visit.machine cell (false, isForeign, declared) →
        isForeign = false ∧
          visit.machine.store.isWithin visit.frame.scope cell.scope = true) ∧
      (∀ frame task machine,
        machine.store.traits? cell = some (false, isForeign, declared) →
        (evaluatorOutside cell.scope depth).perform frame task (machine.put cell content) =
          Action.mapAfter (·.put cell content)
            ((evaluatorOutside cell.scope depth).perform frame task machine)) ∧
      (∀ frame task machine,
        machine.store.traits? cell = some (false, true, declared) →
        (evaluator depth).perform frame task (machine.put cell content) =
          Action.mapAfter (·.put cell content)
            ((evaluator depth).perform frame task machine)) := by
  refine ⟨?_, ?_, ?_, ?_⟩
  · intro text start level visit store entry _ uses
    exact uses.permits
  · intro text start level visit visited elsewhere reaches
    exact reaches.inside visited.hasScope elsewhere
  · exact evaluatorOutside_put content depth
  · exact evaluator_put content depth

/--
The variable of a loop is read in the body of the loop, which is inside its
scope.  A private variable of a group is refused outside of the group, whatever
its value is, and so is a private variable in a scope that imported it.
-/
theorem private_names_mediated_for_loop_variable :
    let text := "each c: \"a\" \x7b match c \x7b \x7d \x7d"
    let name : Token := ⟨.identifier, "c", ⟨20, 1, 21⟩, .none⟩
    let group : Token := ⟨.identifier, "g", ⟨0, 1, 1⟩, .none⟩
    let outer : Frame := ⟨⟨0⟩, 0⟩
    let inner : Frame := ⟨⟨1⟩, 0⟩
    let entry : Entry Value := { value := .text "a", isPublic := false }
    let loop : Scope := { Scope.child ⟨0⟩ with bindings := [("c", entry)] }
    let bound : Machine := { store := { scopes := #[.root, loop] }, sources := 1 }
    let visit : Visit := ⟨inner, .evaluate (.reference name), bound⟩
    let cell : Cell := ⟨⟨1⟩, .variableName, name.lexeme⟩
    let naming : Scope :=
      { Scope.root with groups := [("g", { value := ⟨0⟩, isPublic := true })] }
    let grouped : Machine :=
      { store := { scopes := #[naming, loop], groups := #[⟨"g", ⟨1⟩⟩] }, sources := 1 }
    let imported : Scope :=
      { Scope.root with bindings := [("c", { entry with isForeign := true })] }
    let merged : Machine := { store := { scopes := #[imported] }, sources := 1 }
    let refused : Failure :=
      .raised { place := some name.start, fault := .scope (.inaccessible .variableName "c") }
    Visited 3 (·.runFresh text) {} 1 visit ∧
      Uses 1 visit bound.store cell entry ∧
      Reaches inner visit.task bound cell entry.traits ∧
      entry.isForeign = false ∧
      bound.store.isWithin inner.scope cell.scope = true ∧
      (∀ value : Value,
        let other := grouped.put cell value
        (evaluatorOutside cell.scope 2).perform outer
            (.evaluate (.groupMember (.groupName group) name)) other =
          .error refused other) ∧
      ∀ value : Value,
        let other := merged.put ⟨⟨0⟩, .variableName, name.lexeme⟩ value
        (evaluator 2).perform outer (.evaluate (.reference name)) other = .error refused other := by
  intro text name group outer inner entry loop bound visit cell naming grouped imported merged
    refused
  let started : Machine := { store := { scopes := #[.root] }, sources := 1 }
  let keyword : Token := ⟨.kwEach, "each", ⟨0, 1, 1⟩, .none⟩
  let item : Token := ⟨.identifier, "c", ⟨5, 1, 6⟩, .none⟩
  let colon : Token := ⟨.colon, ":", ⟨6, 1, 7⟩, .none⟩
  let quoted : Token := ⟨.string, "\"a\"", ⟨8, 1, 9⟩, .text "a"⟩
  let opening : Token := ⟨.braceOpen, "\x7b", ⟨12, 1, 13⟩, .none⟩
  let choosing : Token := ⟨.kwMatch, "match", ⟨14, 1, 15⟩, .none⟩
  let first : Token := ⟨.braceOpen, "\x7b", ⟨22, 1, 23⟩, .none⟩
  let final : Token := ⟨.braceClose, "\x7d", ⟨24, 1, 25⟩, .none⟩
  let closing : Token := ⟨.braceClose, "\x7d", ⟨26, 1, 27⟩, .none⟩
  let last : Token := ⟨.endOfInput, "", ⟨27, 1, 28⟩, .none⟩
  let tokens : List Token :=
    [keyword, item, colon, quoted, opening, choosing, name, first, final, closing, last]
  let statement : Stmt := .expression (.choice choosing (.reference name) [] none final)
  let each : Stmt :=
    .each keyword item (.literal (.text "a") quoted) ⟨opening, [statement], closing⟩
  have valid : (read text).valid = true := by decide +kernel
  have lexed : (lex text).tokens = tokens := by decide +kernel
  have statements : (read text).statements = [each] := statements_of_lexed lexed rfl
  have program : Calls (evaluator 3) (·.runFresh text) {} ⟨outer, .execute each, started⟩ :=
    calls_runFresh (evaluator 3) valid statements rfl rfl
  have body : Calls (evaluator 2) (·.step outer (.execute each)) started
      ⟨inner, .execute statement, bound⟩ :=
    calls_each (evaluator 2) rfl rfl rfl rfl
  have value : Calls (evaluator 1) (·.step inner (.execute statement)) bound visit :=
    calls_perform_bind (evaluator 1) inner visit.task bound _
  have visited : Visited 3 (·.runFresh text) {} 1 visit :=
    .next (.next (.first program) body) value
  have found : bound.store.find? Scope.bindings inner.scope name.lexeme =
      some (⟨1⟩, entry) := by
    with_unfolding_all rfl
  have named : bound.store.variableNamed inner.scope (some (inner.site name)) name.lexeme =
      .ok (.text "a") := by
    with_unfolding_all rfl
  have uses : Uses 1 visit bound.store cell entry :=
    .resolved (.read .reference named found)
  have reaches : Reaches inner visit.task bound cell entry.traits := by
    -- Nothing is nested in the task, so that any evaluator serves.
    refine ⟨.null, evaluator 0, evaluator 0, true, ?_, fun blind => ?_⟩
    · exact ⟨rfl, fun _ _ => .misses (.throw .exhausted),
        fun _ _ => .misses (.throw .exhausted)⟩
    · have alike := (blind _ (.parted ⟨.refl _, rfl⟩)).eq_mapAfter
      have same : (.ok .null (bound.put cell .null) : EStateM.Result Failure Machine Value) =
          .ok (.text "a") (bound.put cell .null) := by
        with_unfolding_all exact alike
      cases same
  obtain ⟨usedInside, reachedInside, -⟩ :=
    private_names_mediated 3 cell (.text "b") false none
  obtain ⟨isOwn, -⟩ := usedInside text {} 1 visit bound.store entry visited uses rfl
  obtain ⟨-, inside⟩ := reachedInside text {} 1 visit visited nofun reaches
  have refusedOutside : (evaluatorOutside ⟨1⟩ 2).perform outer
      (.evaluate (.groupMember (.groupName group) name)) grouped = .error refused grouped := by
    with_unfolding_all rfl
  have refusedImported : (evaluator 2).perform outer (.evaluate (.reference name)) merged =
      .error refused merged := by
    with_unfolding_all rfl
  refine ⟨visited, uses, reaches, isOwn, inside, ?_, ?_⟩
  · intro content other
    have alike :=
      (private_names_mediated 2 cell content false none).2.2.1 outer
        (.evaluate (.groupMember (.groupName group) name)) grouped rfl
    rw [refusedOutside] at alike
    exact alike
  · intro content other
    have alike :=
      (private_names_mediated 2 ⟨⟨0⟩, .variableName, name.lexeme⟩ content true none).2.2.2
        outer (.evaluate (.reference name)) merged rfl
    rw [refusedImported] at alike
    exact alike

end ArrowScript

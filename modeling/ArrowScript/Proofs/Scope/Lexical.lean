import ArrowScript.Proofs.Grammar.Totality
import ArrowScript.Proofs.Scope.Chart
import ArrowScript.Proofs.Scope.Lookup
import ArrowScript.Session

namespace ArrowScript

/-!
# Lexical scoping

Wherever the name of a variable is looked up in a run, the scopes that are
searched belong one by one to the bodies around the name in its text.  So a
variable of the same source was declared directly in one of these bodies, not
behind the name, or it was bound for one of them as a parameter or as the
variable of a loop.
-/

open scoped List

/-- A visit of a run of `main` as the source `base`, whose scopes have their places. -/
def Visit.Placed (base : Nat) (main : String) (visit : Visit) : Prop :=
  base < visit.machine.sources ∧
    ∃ chart : Chart,
      chart.Fits base main visit.machine ∧
        chart.Stands base visit.frame visit.task.outline visit.machine.store

section Visits

variable {base : Nat} {main : String} {chart : Chart} {visit : Visit}

theorem Executes.placed {frame : Frame} {body : Body} {start : Machine}
    (executes : Executes frame body start visit) (begun : base < start.sources)
    (fits : chart.Fits base main start)
    (stands : chart.Stands base frame body.outline start.store) : visit.Placed base main := by
  cases executes with
  | statement progress mem =>
    obtain ⟨later, kept, laterFits⟩ := progress.fits begun fits stands
    have laterStands := stands.grown kept progress.size_le
    exact
      ⟨Nat.lt_of_lt_of_le begun progress.sources_le, later, laterFits,
        laterStands.mono (Body.outline_subset mem)⟩

theorem Enters.placed {frame : Frame} {outline : List Element} {start : Machine}
    (enters : Enters frame outline start visit) (begun : base < start.sources)
    (fits : chart.Fits base main start) (stands : chart.Stands base frame outline start.store) :
    visit.Placed base main := by
  cases enters with
  | evaluates progress inside =>
    obtain ⟨later, kept, laterFits⟩ := progress.fits begun fits stands
    have laterStands := stands.grown kept progress.size_le
    exact
      ⟨Nat.lt_of_lt_of_le begun progress.sources_le, later, laterFits,
        laterStands.mono inside⟩
  | executes progress opens executes =>
    obtain ⟨later, kept, laterFits⟩ := progress.fits begun fits stands
    have stillBegun := Nat.lt_of_lt_of_le begun progress.sources_le
    have laterStands := stands.grown kept progress.size_le
    obtain ⟨last, -, lastFits, lastStands⟩ := opens.fits stillBegun laterFits laterStands
    exact
      executes.placed (Nat.lt_of_lt_of_le stillBegun opens.sources_le) lastFits lastStands

/-- In a run whose own statements have their places, everything has. -/
theorem Visited.placed {depth level : Nat} {code : Evaluator → Action α}
    {machine : Machine} (visited : Visited depth code machine level visit)
    (own : ∀ visit, Calls (evaluator depth) code machine visit → visit.Placed base main) :
    visit.Placed base main := by
  induction visited with
  | first calls => exact own _ calls
  | next _ calls ih =>
    obtain ⟨begun, chart, fits, stands⟩ := ih
    exact calls.step_enters.placed begun fits stands

end Visits

namespace Chart.Fits

variable {chart : Chart} {base : Nat} {main : String} {machine : Machine} {ref : Ref .scope}
  {place : CodePlace}

variable (fits : chart.Fits base main machine) (placed : chart ref = some place)

include fits placed

/-- The bodies around a place stand one in the other, up to the program of the text. -/
theorem nested : Body.Nested (.ofText place.text) (place.body :: place.outer) := by
  obtain ⟨source, text, body, outer⟩ := place
  induction outer generalizing ref body with
  | nil =>
    have linked := (fits.places placed).linked
    generalize (machine.store.scope ref).parent = parent at linked
    cases linked
    rfl
  | cons next rest ih =>
    have linked := (fits.places placed).linked
    generalize (machine.store.scope ref).parent = parent at linked
    cases linked with
    | inner older parentPlaced standsIn => exact ⟨standsIn, ih next parentPlaced⟩

/-- The scopes around a scope belong one by one to the bodies around its place. -/
theorem aligned :
    (machine.store.chain ref).length = (place.body :: place.outer).length ∧
      ∀ (index : Nat) owner,
      (machine.store.chain ref)[index]? = some owner → ∃ body outer,
        (place.body :: place.outer)[index]? = some body ∧
          chart owner = some ⟨place.source, place.text, body, outer⟩ := by
  obtain ⟨source, text, body, outer⟩ := place
  induction outer generalizing ref body with
  | nil =>
    have linked := (fits.places placed).linked
    generalize isParent : (machine.store.scope ref).parent = parent at linked
    cases linked
    rw [Store.chain_of_outermost isParent]
    refine ⟨rfl, ?_⟩
    intro index owner isAt
    cases index with
    | zero =>
      cases isAt
      exact ⟨_, _, rfl, placed⟩
    | succ index => cases isAt
  | cons next rest ih =>
    have linked := (fits.places placed).linked
    generalize isParent : (machine.store.scope ref).parent = parent at linked
    cases linked with
    | inner older parentPlaced standsIn =>
      obtain ⟨sameLength, around⟩ := ih next parentPlaced
      rw [Store.chain_of_parent isParent older]
      refine ⟨congrArg (· + 1) sameLength, ?_⟩
      intro index owner isAt
      cases index with
      | zero =>
        cases isAt
        exact ⟨_, _, rfl, placed⟩
      | succ index => exact around index owner isAt

theorem hasScope_of_chain {owner : Ref .scope} (mem : owner ∈ machine.store.chain ref) :
    machine.store.HasScope owner := by
  obtain ⟨index, isAt⟩ := List.getElem?_of_mem mem
  obtain ⟨-, around⟩ := fits.aligned placed
  obtain ⟨body, outer, -, ownerPlaced⟩ := around index owner isAt
  exact (fits.places ownerPlaced).existing

end Chart.Fits

theorem Body.contents_ofText_sublist (text : String) :
    (Body.ofText text).contents <+ (lex text).tokens := by
  unfold Body.ofText
  split
  · exact Grammar.contents_parse_sublist (lex_terminated text)
  · exact List.nil_sublist _

variable {text main : String} {name : Token} {chart : Chart} {base : Nat} {machine : Machine}
  {frame : Frame} {owner : Ref .scope} {entry : Entry Value}

/-- Tokens of nested bodies stand in the text in the order of the body. -/
theorem Body.Nested.notAfter {body : Body} {outer : List Body} {first second : Token}
    (nested : Body.Nested (.ofText text) (body :: outer))
    (ordered : [first, second] <+ body.contents) : first.NotAfter second := by
  have inText : [first, second] <+ (lex text).tokens :=
    ordered.trans (nested.contents_sublist.trans (Body.contents_ofText_sublist text))
  have pairwise := (lex_pairwise_notAfter text).sublist inText
  exact List.rel_of_pairwise_cons pairwise List.mem_cons_self

/-- What the value of an assignment declares stands in front of the target. -/
theorem Body.declared_before_target {body : Body} {declared : Token} {value : Expr}
    (assigns : .assigns name value ∈ body.outline)
    (declares : .variable declared ∈ value.outline) :
    [declared, name] <+ body.contents := by
  have inValue : [declared] <+ value.contents :=
    value.outline_covered _ declares
  have inBody : value.contents ++ [name] <+ body.contents :=
    body.outline_covered _ assigns
  exact (inValue.append (List.Sublist.refl [name])).trans inBody

/-- A task reads a variable as it starts. -/
inductive Task.Reads (name : Token) : Task → Prop
  | reference : Reads name (.evaluate (.reference name))
  | push {value : Expr} {closing : Token} : Reads name (.evaluate (.push name value closing))
  | assign {value : Expr} : Reads name (.evaluate (.assign (.reference name) value))

/--
A task that is visited resolves a name to a variable of a scope.  It does so
when it starts, and an assignment does so once more after its value is
evaluated.
-/
inductive Resolves (level : Nat) (visit : Visit) (name : Token) :
    Store → Ref .scope → Entry Value → Prop
  | read {value : Value} {owner : Ref .scope} {entry : Entry Value} : visit.task.Reads name →
      visit.machine.store.variableNamed visit.frame.scope (some (visit.frame.site name))
          name.lexeme = .ok value →
      visit.machine.store.find? Scope.bindings visit.frame.scope name.lexeme =
        some (owner, entry) →
      Resolves level visit name visit.machine.store owner entry
  | assign
      {below : Nat}
      {expression : Expr}
      {replaced value : Value}
      {final : Machine}
      {owner : Ref .scope}
      {entry : Entry Value} :
      level = below + 1 →
      visit.task = .evaluate (.assign (.reference name) expression) →
      visit.machine.store.variableNamed visit.frame.scope (some (visit.frame.site name))
          name.lexeme = .ok replaced →
      (evaluator below).evaluateReplacing visit.frame (some replaced) expression visit.machine =
        .ok value final →
      final.store.ownerOf visit.frame.scope name.lexeme = .ok owner →
      final.store.find? Scope.bindings visit.frame.scope name.lexeme = some (owner, entry) →
      Resolves level visit name final.store owner entry

/--
A name of a text stands for a variable that belongs to it by the text alone.
The name stands directly in the first of nested bodies, and the scopes that are
searched for it belong to these bodies one by one.  A variable that the same
source declares is declared directly in the body whose scope has it, not behind
the name; one that is not declared is bound for that body.
-/
def Lexical (text : String) (frame : Frame) (name : Token) (store : Store) (owner : Ref .scope)
    (entry : Entry Value) : Prop :=
  ∃ (innermost : Body) (around : List Body) (index : Nat) (body : Body),
    Body.Nested (.ofText text) (innermost :: around) ∧
      .reads name ∈ innermost.outline ∧
      (store.chain frame.scope).length = (innermost :: around).length ∧
      (store.chain frame.scope)[index]? = some owner ∧
      (innermost :: around)[index]? = some body ∧
      (∀ site,
        entry.declared = some site →
        site.source = frame.source →
        ∃ declared,
          .variable declared ∈ body.outline ∧
            declared.lexeme = name.lexeme ∧
            site = frame.site declared ∧
            declared.NotAfter name) ∧
      (entry.declared = none → name.lexeme ∈ body.bound)

theorem Task.Reads.mem_outline {task : Task} (reads : task.Reads name) :
    .reads name ∈ task.outline := by
  cases reads with
  | _ => simp [Task.outline, Expr.outline]

namespace Store

variable {store : Store} {ref owner : Ref .scope} {reader : Option Site} {name : String}
  {entry : Entry Value} {value : Value}

theorem isEarly_of_variableNamed (resolved : store.variableNamed ref reader name = .ok value)
    (found : store.find? Scope.bindings ref name = some (owner, entry)) :
    isEarly reader entry = false := by
  unfold variableNamed visible at resolved
  rw [found] at resolved
  cases isHidden : entry.isHidden with
  | true => simp [isHidden, bind, Except.bind] at resolved
  | false =>
    cases early : isEarly reader entry with
    | false => rfl
    | true => simp [isHidden, early, bind, Except.bind] at resolved

/-- A variable that may be read is not declared behind the name that is read. -/
theorem notAfter_of_isEarly {frame : Frame} {reading declared : Token}
    (notEarly : isEarly (some (frame.site reading)) entry = false) (isOwn : entry.isForeign = false)
    (site : entry.declared = some (frame.site declared)) : declared.NotAfter reading := by
  unfold isEarly at notEarly
  simp only [site, isOwn, Frame.site, BEq.rfl, Bool.not_false, Bool.and_self, Bool.true_and,
    decide_eq_false_iff_not] at notEarly
  exact Nat.le_of_not_lt notEarly

end Store

/-- A variable found from a scope in its place belongs by the text to the name that is looked up. -/
theorem Chart.Fits.lexical {outline : List Element} (fits : chart.Fits base main machine)
    (stands : chart.Stands base frame outline machine.store) (recent : base ≤ frame.source)
    (reads : .reads name ∈ outline)
    (found : machine.store.find? Scope.bindings frame.scope name.lexeme = some (owner, entry))
    (ordered : ∀ declared, entry.isForeign = false →
      entry.declared = some (frame.site declared) →
      declared.NotAfter name) :
    ∃ text, (frame.source = base → text = main) ∧
      Lexical text frame name machine.store owner entry := by
  rcases stands.origin with ⟨isOld, -⟩ | ⟨place, placed, sameSource, inside⟩
  · exact (Nat.not_lt_of_le recent isOld).elim
  obtain ⟨inChain, isThere⟩ := Store.findIn_eq_some found
  obtain ⟨index, isAt⟩ := List.getElem?_of_mem inChain
  obtain ⟨sameLength, around⟩ := fits.aligned placed
  obtain ⟨body, outer, bodyAt, ownerPlaced⟩ := around index owner isAt
  refine ⟨place.text, fun isMain => (fits.places placed).text (sameSource.trans isMain), ?_⟩
  refine
    ⟨place.body, place.outer, index, body, fits.nested placed, inside reads, sameLength, isAt,
      bodyAt, ?_⟩
  cases (fits.places ownerPlaced).binds _ (Namespace.mem_of_lookup isThere) with
  | imported declared later =>
    refine ⟨?_, fun undeclared => by simp [undeclared] at declared⟩
    intro site isSite sameAsFrame
    rw [isSite] at declared
    cases declared
    rw [sameAsFrame, sameSource] at later
    exact (Nat.lt_irrefl _ later).elim
  | @declared token mem sameName isOwn declared =>
    rw [sameSource] at declared
    refine ⟨?_, fun undeclared => by simp [undeclared] at declared⟩
    intro site isSite _
    rw [isSite] at declared
    cases declared
    exact ⟨token, mem, sameName.symm, rfl, ordered token isOwn isSite⟩
  | bound isBound undeclared =>
    refine ⟨?_, fun _ => isBound⟩
    intro site isSite _
    rw [undeclared] at isSite
    cases isSite

theorem progress_of_evaluateReplacing {below : Nat} {replaced : Option Value} {expr : Expr}
    {value : Value} {final : Machine}
    (ran : (evaluator below).evaluateReplacing frame replaced expr machine = .ok value final) :
    Progress frame expr.outline true machine final := by
  have keeps : Keeps (some Placed) (evaluator below) (.code frame expr.outline true)
      (·.evaluateReplacing frame replaced expr) :=
    (Keeps.setContext replaced).bind fun _ =>
      .evaluate (evaluator_steady below) (List.Subset.refl _)
  have moves := (keeps machine).moves
  rw [ran] at moves
  exact moves

/--
A variable that an assignment finds after its value is evaluated is not declared
behind the target: it could be read before, or the value has declared it.
-/
theorem Chart.Fits.notAfter_target {final : Machine} {place : CodePlace} {declared : Token}
    {expr : Expr} {replaced : Value} (fits : chart.Fits base main machine)
    (placed : chart frame.scope = some place)
    (assigns : .assigns name expr ∈ place.body.outline) (resolved :
      machine.store.variableNamed frame.scope (some (frame.site name)) name.lexeme = .ok replaced)
    (extended : Store.Extends frame expr.outline machine.store final.store)
    (found : final.store.find? Scope.bindings frame.scope name.lexeme = some (owner, entry))
    (isOwn : entry.isForeign = false) (site : entry.declared = some (frame.site declared)) :
    declared.NotAfter name := by
  have existing : ∀ other ∈ machine.store.chain frame.scope, machine.store.HasScope other :=
    fun other mem => fits.hasScope_of_chain placed mem
  rcases extended.found_again existing found with
    ⟨earlier, wasFound, sameTraits⟩ | ⟨isForeign, -⟩ | ⟨token, mem, -, -, tokenSite⟩
  · have notEarly := Store.isEarly_of_variableNamed resolved wasFound
    have sameForeign : earlier.isForeign = entry.isForeign := congrArg (·.2.1) sameTraits
    have sameSite : earlier.declared = entry.declared := congrArg (·.2.2) sameTraits
    exact Store.notAfter_of_isEarly notEarly (sameForeign.trans isOwn) (sameSite.trans site)
  · rw [isOwn] at isForeign
    cases isForeign
  · have ordered : token.NotAfter name :=
      (fits.nested placed).notAfter (Body.declared_before_target assigns mem)
    have sameStart : declared.start = token.start := by
      have same := site.symm.trans tokenSite
      exact congrArg Site.place (Option.some.inj same)
    unfold Token.NotAfter at ordered ⊢
    rw [sameStart]
    exact ordered

/-- A name that a placed visit resolves stands for a variable that belongs to it by the text. -/
theorem Resolves.lexical {level : Nat} {visit : Visit} {store : Store}
    (resolves : Resolves level visit name store owner entry) (placed : visit.Placed base main)
    (recent : base ≤ visit.frame.source) : ∃ text,
      (visit.frame.source = base → text = main) ∧
      Lexical text visit.frame name store owner entry := by
  obtain ⟨begun, chart, fits, stands⟩ := placed
  cases resolves with
  | read reads resolved found =>
    have notEarly := Store.isEarly_of_variableNamed resolved found
    apply fits.lexical stands recent reads.mem_outline found
    exact fun declared isOwn site => Store.notAfter_of_isEarly notEarly isOwn site
  | @assign below expression replaced value final _ _ _ isAssignment resolved ran _ found =>
    obtain ⟨frame, task, machine⟩ := visit
    cases isAssignment
    have outline : (Task.evaluate (.assign (.reference name) expression)).outline =
        expression.outline ++ [.reads name, .assigns name expression] := by
      simp [Task.outline, Expr.outline, Expr.assignedOutline]
    rw [outline] at stands
    have progress := progress_of_evaluateReplacing ran
    obtain ⟨later, kept, laterFits⟩ :=
      progress.fits begun fits (stands.mono (List.subset_append_left _ _))
    have laterStands := stands.grown kept progress.size_le
    apply laterFits.lexical laterStands recent (by simp) found
    intro declared isOwn site
    rcases stands.origin with ⟨isOld, -⟩ | ⟨place, placed, -, inside⟩
    · exact (Nat.not_lt_of_le recent isOld).elim
    · exact
        fits.notAfter_target placed (inside (by simp)) resolved progress.extends found isOwn site

/-- Every function of a script comes from a source that has been read. -/
def Machine.Dated (machine : Machine) : Prop :=
  ∀ {ref item fn},
    item ∈ (machine.store.scope ref).functions →
    item.2.value = .user fn →
    fn.source < machine.sources

/-- Run a source in a new outermost scope. -/
def Evaluator.runFresh (evaluator : Evaluator) (text : String) : Action RunResult :=
  Session.newRoot >>= fun scope => evaluator.runSource scope text

theorem Evaluator.runFresh_eq (evaluator : Evaluator) (text : String) :
    evaluator.runFresh text = startSource >>= fun frame => evaluator.runNumbered frame text := by
  simp [runFresh, runSource_eq, startSource, Session.newRoot]

theorem Chart.Fits.dated (fits : chart.Fits base main machine) (begun : base < machine.sources) :
    machine.Dated := by
  intro ref item fn mem isUser
  rcases fits.functions mem isUser with isOld | ⟨place, placed, sameSource, -⟩
  · exact Nat.lt_trans isOld begun
  · rw [← sameSource]
    exact (fits.places placed).numbered

/-- A program that starts on a machine with dated functions finds its place. -/
theorem Machine.Dated.exists_chart {started : Machine} {inner : Frame} (dated : machine.Dated)
    (loads : machine.Loads inner started) (text : String) :
    ∃ chart : Chart, chart.Fits machine.sources text started ∧
      chart.Stands machine.sources inner (Body.ofText text).outline started.store := by
  have nothing : Chart.Fits (fun _ => none) machine.sources text machine := by
    refine ⟨?_, ?_⟩
    · intro ref place placed
      cases placed
    · intro ref item fn mem isUser
      exact .inl (dated mem isUser)
  obtain ⟨chart, -, fits, stands, -⟩ := nothing.loaded loads (Nat.le_refl _) fun _ => rfl
  exact ⟨chart, fits, stands⟩

theorem Calls.executes_of_runFresh {depth : Nat} {visit : Visit}
    (calls : Calls (evaluator depth) (·.runFresh text) machine visit) :
    ∃ inner started, machine.Loads inner started ∧
      Executes inner (.ofText text) started visit := by
  cases ran : Evaluator.startSource machine with
  | error failure started => cases ran
  | ok inner started =>
    have handed : Calls (evaluator depth) (·.runNumbered inner text) started visit := by
      obtain ⟨other, sameRounds, elsewhere, differs⟩ := calls
      refine ⟨other, sameRounds, elsewhere, ?_⟩
      simpa only [Evaluator.runFresh_eq, Action.bind_of_ok ran] using differs
    have executes : Executes inner (.ofText text) started visit :=
      ((Evaluator.runNumbered_keeps (evaluator_steady depth) text started).enters handed).1
    exact ⟨inner, started, Evaluator.loads_startSource ran, executes⟩

theorem progress_of_runFresh (depth : Nat) (text : String) (machine : Machine) :
    ∃ inner started, machine.Loads inner started ∧
      Progress inner (Body.ofText text).outline false started
        (Action.after ((evaluator depth).runFresh text machine)) := by
  cases ran : Evaluator.startSource machine with
  | error failure started => cases ran
  | ok inner started =>
    refine ⟨inner, started, Evaluator.loads_startSource ran, ?_⟩
    rw [Evaluator.runFresh_eq, Action.bind_of_ok ran]
    exact (Evaluator.runNumbered_keeps (evaluator_steady depth) text started).moves

theorem Checked.messages_of_valid {checked : Checked} (valid : checked.valid = true) :
    checked.messages = [] := by
  obtain ⟨lexical, grammatical⟩ := Bool.and_eq_true_iff.mp valid
  unfold Checked.messages
  rw [List.isEmpty_iff.mp lexical, List.isEmpty_iff.mp grammatical]
  rfl

theorem statements_of_lexed {text : String} {tokens : List Token} {stmts : List Stmt}
    (lexed : (lex text).tokens = tokens) (parsed : (parse tokens).statements = stmts) :
    (read text).statements = stmts := by
  rw [← parsed, ← lexed]
  rfl

theorem Evaluator.runNumbered_failingAt (evaluator : Evaluator) {stmt : Stmt}
    {rest : List Stmt} {failure : Failure}
    (valid : (read text).valid = true) (stmts : (read text).statements = stmt :: rest)
    (silent : machine.trace.level = 0) (isHard : failure.IsHard) :
    (evaluator.failingAt ⟨frame, .execute stmt, machine⟩ failure).runNumbered frame text
      machine = .error failure machine := by
  have failed := evaluator.interpret_failingAt frame stmt rest silent isHard
  rw [← stmts] at failed
  have written : Evaluator.writeLines (read text).messages machine = .ok () machine := by
    rw [Checked.messages_of_valid valid]
    rfl
  unfold Evaluator.runNumbered
  rw [Action.bind_of_ok written, if_pos valid]
  exact Action.bind_of_error failed

theorem calls_runFresh (evaluator : Evaluator) {stmt : Stmt} {rest : List Stmt}
    {started : Machine} (valid : (read text).valid = true)
    (stmts : (read text).statements = stmt :: rest)
    (start : Evaluator.startSource machine = .ok frame started) (silent : started.trace.level = 0) :
    Calls evaluator (·.runFresh text) machine ⟨frame, .execute stmt, started⟩ := by
  apply Calls.of_failures started
  intro failure isHard
  rw [Evaluator.runFresh_eq, Action.bind_of_ok start]
  exact evaluator.runNumbered_failingAt valid stmts silent isHard

/--
In a run of a text in a new outermost scope, whatever the run does and however
it ends, every name of a variable that is read, pushed to or assigned to stands
for a variable that belongs to it by the text in which the name stands: the text
of the run, or one that the run imports.  After the run the machine is again one
on which a text may be run so.
-/
theorem variables_lexically_scoped
    (depth : Nat)
    (text : String)
    (machine : Machine)
    (dated : machine.Dated) :
    (Action.after ((evaluator depth).runFresh text machine)).Dated ∧
      ∀ level visit name store owner entry,
        Visited depth (·.runFresh text) machine level visit →
        machine.sources ≤ visit.frame.source →
        Resolves level visit name store owner entry →
        ∃ script,
          (visit.frame.source = machine.sources → script = text) ∧
            Lexical script visit.frame name store owner entry := by
  refine ⟨?_, ?_⟩
  · obtain ⟨inner, started, loads, progress⟩ := progress_of_runFresh depth text machine
    obtain ⟨chart, fits, stands⟩ := dated.exists_chart loads text
    obtain ⟨later, -, laterFits⟩ := progress.fits loads.numbered fits stands
    exact laterFits.dated (Nat.lt_of_lt_of_le loads.numbered progress.sources_le)
  · intro level visit name store owner entry visited recent resolves
    have own : ∀ visit, Calls (evaluator depth) (·.runFresh text) machine visit →
        visit.Placed machine.sources text := by
      intro visit calls
      obtain ⟨inner, started, loads, executes⟩ := calls.executes_of_runFresh
      obtain ⟨chart, fits, stands⟩ := dated.exists_chart loads text
      exact executes.placed loads.numbered fits stands
    exact resolves.lexical (visited.placed own) recent

/-- The target of an assignment in a loop stands for the variable of the loop. -/
theorem variables_lexically_scoped_in_loop :
    let text := "each c: \"a\" \x7b c -> c \x7d"
    let source : Token := ⟨.identifier, "c", ⟨14, 1, 15⟩, .none⟩
    let target : Token := ⟨.identifier, "c", ⟨19, 1, 20⟩, .none⟩
    let assignment : Expr := .assign (.reference target) (.reference source)
    let inner : Frame := ⟨⟨1⟩, 0⟩
    let entry : Entry Value := { value := .text "a", isPublic := false }
    let loop : Scope := { Scope.child ⟨0⟩ with bindings := [("c", entry)] }
    let bound : Machine := { store := { scopes := #[.root, loop] }, sources := 1 }
    let visit : Visit := ⟨inner, .evaluate assignment, bound⟩
    Visited 3 (·.runFresh text) {} 1 visit ∧
      Resolves 1 visit target bound.store ⟨1⟩ entry ∧
      Lexical text inner target bound.store ⟨1⟩ entry := by
  intro text source target assignment inner entry loop bound visit
  let outer : Frame := ⟨⟨0⟩, 0⟩
  let started : Machine := { store := { scopes := #[.root] }, sources := 1 }
  let keyword : Token := ⟨.kwEach, "each", ⟨0, 1, 1⟩, .none⟩
  let item : Token := ⟨.identifier, "c", ⟨5, 1, 6⟩, .none⟩
  let colon : Token := ⟨.colon, ":", ⟨6, 1, 7⟩, .none⟩
  let quoted : Token := ⟨.string, "\"a\"", ⟨8, 1, 9⟩, .text "a"⟩
  let opening : Token := ⟨.braceOpen, "\x7b", ⟨12, 1, 13⟩, .none⟩
  let arrow : Token := ⟨.arrow, "->", ⟨16, 1, 17⟩, .none⟩
  let closing : Token := ⟨.braceClose, "\x7d", ⟨21, 1, 22⟩, .none⟩
  let last : Token := ⟨.endOfInput, "", ⟨22, 1, 23⟩, .none⟩
  let tokens : List Token :=
    [keyword, item, colon, quoted, opening, source, arrow, target, closing, last]
  let each : Stmt :=
    .each keyword item (.literal (.text "a") quoted)
      ⟨opening, [.expression assignment], closing⟩
  have valid : (read text).valid = true := by decide +kernel
  have lexed : (lex text).tokens = tokens := by decide +kernel
  have statements : (read text).statements = [each] := statements_of_lexed lexed rfl
  have program : Calls (evaluator 3) (·.runFresh text) {} ⟨outer, .execute each, started⟩ :=
    calls_runFresh (evaluator 3) valid statements rfl rfl
  have body : Calls (evaluator 2) (·.step outer (.execute each)) started
      ⟨inner, .execute (.expression assignment), bound⟩ :=
    calls_each (evaluator 2) rfl rfl rfl rfl
  have value :
      Calls (evaluator 1) (·.step inner (.execute (.expression assignment))) bound visit :=
    calls_perform_bind (evaluator 1) inner (.evaluate assignment) bound _
  have visited : Visited 3 (·.runFresh text) {} 1 visit :=
    .next (.next (.first program) body) value
  have found : bound.store.find? Scope.bindings inner.scope "c" = some (⟨1⟩, entry) := by
    with_unfolding_all rfl
  have resolved :
      bound.store.variableNamed inner.scope (some (inner.site target)) "c" = .ok (.text "a") := by
    with_unfolding_all rfl
  have resolves : Resolves 1 visit target bound.store ⟨1⟩ entry :=
    .read .assign resolved found
  have dated : Machine.Dated {} := by
    intro ref stored function member
    cases Store.hasScope_of_function member
  obtain ⟨script, isMain, lexical⟩ :=
    (variables_lexically_scoped 3 text {} dated).2 1 visit target bound.store ⟨1⟩ entry visited
      (Nat.le_refl 0) resolves
  refine ⟨visited, resolves, ?_⟩
  rw [isMain rfl] at lexical
  exact lexical

end ArrowScript

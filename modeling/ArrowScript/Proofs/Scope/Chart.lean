import ArrowScript.Proofs.Scope.Extension

namespace ArrowScript

/-!
# Which body a scope belongs to

A chart says of the scopes of a store in which body of which text the code
stands that runs there.  A run that starts with a new source keeps a chart of
everything read from then on: the parent of a scope belongs to the next body
around, the variables of a scope were declared or bound in its body or come
from a later source, and a function closes over the scope of the body that
declares it.
-/

variable {inner : Frame} {additions : Additions} {body : Body}

/-- Where code stands: its source, the text of it, its body and the bodies around that one. -/
structure CodePlace where
  source : Nat
  text : String
  body : Body
  outer : List Body

/-- The places of the code that runs in scopes, as far as they are known. -/
abbrev Chart := Ref .scope → Option CodePlace

/-- The scope of a place has the scope of the next body around as its parent. -/
inductive CodePlace.Linked (chart : Chart) (ref : Ref .scope) :
    Option (Ref .scope) → CodePlace → Prop
  | outermost {source : Nat} {text : String} :
      Linked chart ref none ⟨source, text, .ofText text, []⟩
  | inner
      {parent : Ref .scope}
      {source : Nat}
      {text : String}
      {body next : Body}
      {rest : List Body} :
      parent.index < ref.index →
      chart parent = some ⟨source, text, next, rest⟩ → body.StandsIn next →
      Linked chart ref (some parent) ⟨source, text, body, next :: rest⟩

/-- Where a variable of the scope of a place comes from. -/
inductive CodePlace.Binds (place : CodePlace) (item : String × Entry Value) : Prop
  | imported {site : Site} : item.2.declared = some site → place.source < site.source →
      Binds place item
  | declared {name : Token} : .variable name ∈ place.body.outline → item.1 = name.lexeme →
      item.2.isForeign = false → item.2.declared = some ⟨place.source, name.start⟩ →
      Binds place item
  | bound : item.1 ∈ place.body.bound → item.2.declared = none → Binds place item

theorem CodePlace.Binds.of_like {place : CodePlace} {item like : String × Entry Value}
    (binds : place.Binds like) (sameName : like.1 = item.1)
    (sameTraits : like.2.traits = item.2.traits) : place.Binds item := by
  have sameForeign : like.2.isForeign = item.2.isForeign :=
    congrArg (·.2.1) sameTraits
  have sameSite : like.2.declared = item.2.declared :=
    congrArg (·.2.2) sameTraits
  cases binds with
  | imported declared later => exact .imported (sameSite ▸ declared) later
  | declared mem name isOwn declared =>
    exact .declared mem (sameName ▸ name) (sameForeign ▸ isOwn) (sameSite ▸ declared)
  | bound mem declared => exact .bound (sameName ▸ mem) (sameSite ▸ declared)

namespace Chart

/-- A body may run inside a scope: it stands in the body there, or its source is an old one. -/
def Hosts (chart : Chart) (base : Nat) (ref : Ref .scope) (source : Nat) (body : Body) : Prop :=
  source < base ∨
    ∃ place,
      chart ref = some place ∧
        place.source = source ∧
        body.StandsIn place.body

/-- What is right about a place for a scope, in a run of `main` as the source `base`. -/
structure Describes (chart : Chart) (base : Nat) (main : String) (machine : Machine)
    (ref : Ref .scope) (place : CodePlace) : Prop where
  existing : machine.store.HasScope ref
  since : base ≤ place.source
  numbered : place.source < machine.sources
  text : place.source = base → place.text = main
  linked : place.Linked chart ref (machine.store.scope ref).parent
  binds : ∀ item ∈ (machine.store.scope ref).bindings, place.Binds item

/-- A chart of the scopes of code read since the source `base`, which is the source of `main`. -/
structure Fits (chart : Chart) (base : Nat) (main : String) (machine : Machine) : Prop where
  places : ∀ {ref place}, chart ref = some place → chart.Describes base main machine ref place
  functions : ∀ {ref item function}, item ∈ (machine.store.scope ref).functions →
    item.2.value = .user function →
    chart.Hosts base function.closure function.source function.code

/-- A later chart says the same of the scopes that a store has. -/
def Continues (store : Store) (earlier later : Chart) : Prop :=
  ∀ ref, store.HasScope ref → later ref = earlier ref

/-- Code with an outline runs in a frame: in the body of its scope, or as part of an old source. -/
structure Stands (chart : Chart) (base : Nat) (frame : Frame) (outline : List Element)
    (store : Store) : Prop where
  existing : store.HasScope frame.scope
  origin : (frame.source < base ∧ chart frame.scope = none) ∨ ∃ place,
    chart frame.scope = some place ∧ place.source = frame.source ∧
      outline ⊆ place.body.outline

/-- A chart with a place for one more scope. -/
def put (chart : Chart) (ref : Ref .scope) (place : Option CodePlace) : Chart :=
  fun other => if other = ref then place else chart other

variable {chart later : Chart} {base : Nat} {main : String} {before after : Machine}
  {ref : Ref .scope}

theorem put_self (chart : Chart) (ref : Ref .scope) (place : Option CodePlace) :
    chart.put ref place ref = place :=
  if_pos rfl

theorem put_other {other : Ref .scope} (different : other ≠ ref) (place : Option CodePlace) :
    chart.put ref place other = chart other :=
  if_neg different

theorem Continues.refl (store : Store) (chart : Chart) : Continues store chart chart :=
  fun _ _ => rfl

variable {store : Store} {frame : Frame}

theorem Continues.trans {first second third : Chart} {larger : Store}
    (earlier : Continues store first second) (kept : Continues larger second third)
    (size : store.scopes.size ≤ larger.scopes.size) : Continues store first third := by
  intro ref existing
  rw [kept ref (Nat.lt_of_lt_of_le existing size), earlier ref existing]

theorem Stands.grown {outline : List Element} {larger : Store}
    (stands : chart.Stands base frame outline store) (kept : Continues store chart later)
    (size : store.scopes.size ≤ larger.scopes.size) : later.Stands base frame outline larger where
  existing := Nat.lt_of_lt_of_le stands.existing size
  origin := by
    rw [kept frame.scope stands.existing]
    exact stands.origin

theorem Stands.mono {fewer more : List Element} (stands : chart.Stands base frame more store)
    (inside : fewer ⊆ more) : chart.Stands base frame fewer store where
  existing := stands.existing
  origin := by
    rcases stands.origin with isOld | ⟨place, placed, sameSource, contained⟩
    · exact .inl isOld
    · exact .inr ⟨place, placed, sameSource, List.Subset.trans inside contained⟩

theorem Stands.hosts {outline : List Element} {inner : Body}
    (stands : chart.Stands base frame outline store)
    (standsIn : ∀ body : Body, outline ⊆ body.outline → inner.StandsIn body) :
    chart.Hosts base frame.scope frame.source inner := by
  rcases stands.origin with ⟨isOld, -⟩ | ⟨place, placed, sameSource, contained⟩
  · exact .inl isOld
  · exact .inr ⟨place, placed, sameSource, standsIn place.body contained⟩

/-- A chart survives changes of `@`, of values of variables and of what is no scope. -/
theorem Fits.of_alike (fits : chart.Fits base main before)
    (size : after.store.scopes.size = before.store.scopes.size)
    (sources : before.sources ≤ after.sources) (alike : ∀ ref, before.store.HasScope ref →
      (before.store.scope ref).Alike (after.store.scope ref)) :
    chart.Fits base main after := by
  refine ⟨?_, ?_⟩
  · intro ref place placed
    have described := fits.places placed
    have same := alike ref described.existing
    refine ⟨?_, described.since, Nat.lt_of_lt_of_le described.numbered sources, described.text,
      ?_, ?_⟩
    · exact Nat.lt_of_lt_of_le described.existing (Nat.le_of_eq size.symm)
    · rw [same.parent]
      exact described.linked
    · intro item mem
      obtain ⟨like, wasThere, sameName, sameTraits⟩ :=
        Namespace.exists_of_shape_eq same.bindings mem
      exact (described.binds like wasThere).of_like sameName sameTraits
  · intro ref item fn mem isUser
    have existing : before.store.HasScope ref :=
      Nat.lt_of_lt_of_le (Store.hasScope_of_function mem) (Nat.le_of_eq size)
    rw [(alike ref existing).functions] at mem
    exact fits.functions mem isUser

/-- A chart survives entries that are added to a scope, if they fit. -/
theorem Fits.add (fits : chart.Fits base main before)
    (existing : before.store.HasScope ref)
    (bindings : ∀ place, chart ref = some place →
      ∀ item ∈ additions.bindings, place.Binds item)
    (fns : ∀ item ∈ additions.functions, ∀ fn, item.2.value = .user fn →
      chart.Hosts base fn.closure fn.source fn.code) :
    chart.Fits base main
      (before.modifyStore fun store => store.setScope ref ((store.scope ref).add additions)) := by
  have size :=
    before.store.size_setScope ref ((before.store.scope ref).add additions)
  have changed :=
    Store.scope_setScope_self existing ((before.store.scope ref).add additions)
  refine ⟨?_, ?_⟩
  · intro other place placed
    have described := fits.places placed
    have stillThere := Nat.lt_of_lt_of_le described.existing (Nat.le_of_eq size.symm)
    refine ⟨stillThere, described.since, described.numbered, described.text, ?_, ?_⟩
    all_goals by_cases same : other = ref
    · subst same
      rw [Machine.modifyStore, changed]
      exact described.linked
    · rw [Machine.modifyStore, Store.scope_setScope_other same]
      exact described.linked
    · subst same
      rw [Machine.modifyStore, changed]
      intro item mem
      rcases List.mem_append.mp mem with wasThere | isNew
      · exact described.binds item wasThere
      · exact bindings place placed item isNew
    · rw [Machine.modifyStore, Store.scope_setScope_other same]
      exact described.binds
  · intro other item fn mem isUser
    by_cases same : other = ref
    · subst same
      rw [Machine.modifyStore, changed] at mem
      rcases List.mem_append.mp mem with wasThere | isNew
      · exact fits.functions wasThere isUser
      · exact fns item isNew fn isUser
    · rw [Machine.modifyStore, Store.scope_setScope_other same] at mem
      exact fits.functions mem isUser

theorem continues_put (chart : Chart) (machine : Machine) (place : Option CodePlace) :
    Continues machine.store chart (chart.put machine.nextScope place) := by
  intro ref existing
  apply put_other
  rintro rfl
  exact Nat.lt_irrefl _ existing

theorem Hosts.grown {source : Nat}
    (hosts : chart.Hosts base ref source body) (fits : chart.Fits base main before)
    (kept : Continues before.store chart later) : later.Hosts base ref source body := by
  rcases hosts with isOld | ⟨place, placed, rest⟩
  · exact .inl isOld
  · exact .inr ⟨place, (kept ref (fits.places placed).existing).trans placed, rest⟩

theorem linked_grown {parent : Option (Ref .scope)} {place : CodePlace}
    (linked : place.Linked chart ref parent) (fits : chart.Fits base main before)
    (kept : Continues before.store chart later) : place.Linked later ref parent := by
  cases linked with
  | outermost => exact .outermost
  | inner older placed standsIn =>
    exact .inner older ((kept _ (fits.places placed).existing).trans placed) standsIn

theorem Fits.gains {scope : Scope} (fits : chart.Fits base main before)
    (gains : before.Gains scope after) (noFunctions : scope.functions = [])
    (place : Option CodePlace)
    (describes : ∀ given ∈ place, (base ≤ given.source ∧ given.source < after.sources) ∧
      (given.source = base → given.text = main) ∧
        given.Linked chart before.nextScope scope.parent ∧
      ∀ item ∈ scope.bindings, given.Binds item) :
    (chart.put before.nextScope place).Fits base main after := by
  have kept := continues_put chart before place
  have current : after.store.scope before.nextScope = scope :=
    Store.scope_of_push_new gains.scopes
  refine ⟨?_, ?_⟩
  · intro ref given placed
    by_cases isNew : ref = before.nextScope
    · subst isNew
      rw [put_self] at placed
      obtain ⟨⟨since, numbered⟩, text, linked, binds⟩ := describes given placed
      rw [← current] at linked binds
      exact
        ⟨Store.hasScope_of_push_new gains.scopes, since, numbered, text,
          linked_grown linked fits kept, binds⟩
    · rw [put_other isNew] at placed
      have described := fits.places placed
      have unchanged := Store.scope_of_push gains.scopes described.existing
      have linked := described.linked
      have binds := described.binds
      rw [← unchanged] at linked binds
      exact
        ⟨Store.hasScope_of_push gains.scopes described.existing, described.since,
          Nat.lt_of_lt_of_le described.numbered gains.sources, described.text,
          linked_grown linked fits kept, binds⟩
  · intro ref item fn mem isUser
    by_cases isNew : ref = before.nextScope
    · subst isNew
      rw [current, noFunctions] at mem
      cases mem
    · have existing : before.store.HasScope ref := by
        have inAfter := Store.hasScope_of_function mem
        have different : ref.index ≠ before.store.scopes.size :=
          fun same => isNew (Store.ref_eq_of_index_eq same)
        unfold Store.HasScope at inAfter ⊢
        rw [gains.scopes, Array.size_push] at inAfter
        omega
      rw [Store.scope_of_push gains.scopes existing] at mem
      exact (fits.functions mem isUser).grown fits kept

/-- A body that may run inside a scope finds its place when it starts. -/
theorem Fits.opened {scope : Scope} {parent : Ref .scope} {source : Nat}
    (fits : chart.Fits base main before) (gains : before.Gains scope after)
    (isParent : scope.parent = some parent) (starts : scope.Starts body)
    (hosts : chart.Hosts base parent source body) :
    ∃ later, Continues before.store chart later ∧ later.Fits base main after ∧
      later.Stands base ⟨before.nextScope, source⟩ body.outline after.store := by
  have existing := Store.hasScope_of_push_new gains.scopes
  rcases hosts with isOld | ⟨place, placed, rfl, standsIn⟩
  · refine ⟨chart.put before.nextScope none, continues_put chart before none, ?_, existing, ?_⟩
    · exact fits.gains gains starts.functions none (by simp)
    · exact .inl ⟨isOld, put_self chart before.nextScope none⟩
  · have described := fits.places placed
    let inner : CodePlace := ⟨place.source, place.text, body, place.body :: place.outer⟩
    have linked : inner.Linked chart before.nextScope scope.parent := by
      rw [isParent]
      exact .inner described.existing placed standsIn
    have binds : ∀ item ∈ scope.bindings, inner.Binds item := by
      intro item mem
      obtain ⟨isBound, undeclared, -⟩ := starts.bindings item mem
      exact .bound isBound undeclared
    have numbered := Nat.lt_of_lt_of_le described.numbered gains.sources
    refine ⟨chart.put before.nextScope inner, continues_put chart before inner, ?_,
      existing, ?_⟩
    · apply fits.gains gains starts.functions
      rintro given ⟨⟩
      exact ⟨⟨described.since, numbered⟩, described.text, linked, binds⟩
    · exact .inr ⟨inner, put_self chart before.nextScope inner, rfl, List.Subset.refl _⟩

theorem Fits.loaded {text : String} (fits : chart.Fits base main before)
    (loads : before.Loads inner after) (since : base ≤ before.sources)
    (isMain : before.sources = base → text = main) :
    ∃ later, Continues before.store chart later ∧ later.Fits base main after ∧
      later.Stands base inner (Body.ofText text).outline after.store ∧
      later inner.scope = some ⟨inner.source, text, .ofText text, []⟩ := by
  let place : CodePlace := ⟨before.sources, text, .ofText text, []⟩
  have binds : ∀ item ∈ Scope.root.bindings, place.Binds item := by
    intro item mem
    cases mem
  have placed := put_self chart before.nextScope place
  have existing := Store.hasScope_of_push_new loads.scopes
  rw [loads.frame]
  refine ⟨chart.put before.nextScope place, continues_put chart before place, ?_, ?_, placed⟩
  · apply fits.gains loads.toGains rfl
    rintro given ⟨⟩
    exact ⟨⟨since, loads.numbered⟩, isMain, .outermost, binds⟩
  · exact ⟨existing, .inr ⟨place, placed, rfl, List.Subset.refl _⟩⟩

end Chart

open Chart

variable {chart : Chart} {base : Nat} {main : String} {frame : Frame} {outline : List Element}

theorem Opens.fits {before started : Machine}
    (opens : Opens frame outline before inner body started) (begun : base < before.sources)
    (fits : chart.Fits base main before) (stands : chart.Stands base frame outline before.store) :
    ∃ later, Continues before.store chart later ∧ later.Fits base main started ∧
      later.Stands base inner body.outline started.store := by
  cases opens with
  | inner mem gains isParent starts =>
    have hosts := stands.hosts fun outer inside => .inl (inside mem)
    exact fits.opened gains isParent starts hosts
  | call stored isUser gains isParent starts =>
    exact fits.opened gains isParent starts (fits.functions stored isUser)
  | load loads =>
    obtain ⟨later, kept, laterFits, laterStands, -⟩ :=
      fits.loaded loads (Nat.le_of_lt begun) fun same => (Nat.ne_of_gt begun same).elim
    exact ⟨later, kept, laterFits, laterStands⟩

theorem Additions.Declared.fits {machine : Machine}
    (declared : additions.Declared frame outline) (fits : chart.Fits base main machine)
    (stands : chart.Stands base frame outline machine.store) :
    chart.Fits base main (machine.modifyStore fun store =>
      store.setScope frame.scope ((store.scope frame.scope).add additions)) := by
  apply fits.add stands.existing
  · intro place placed item mem
    obtain ⟨name, inOutline, sameName, isOwn, site⟩ := declared.bindings item mem
    rcases stands.origin with ⟨-, unplaced⟩ | ⟨other, placedHere, sameSource, inside⟩
    · rw [unplaced] at placed
      cases placed
    · rw [placedHere] at placed
      cases placed
      apply CodePlace.Binds.declared (inside inOutline) sameName isOwn
      rw [site, sameSource]
      rfl
  · intro item mem fn isUser
    obtain ⟨name, params, block, inOutline, -, isDeclared⟩ :=
      declared.functions item mem fn isUser
    rw [isUser] at isDeclared
    cases isDeclared
    apply stands.hosts
    exact fun body inside => .inr ⟨name, params, block, inside inOutline, rfl⟩

/-- What code imports from a program that it has loaded fits the scope where the code runs. -/
theorem Scope.Imported.fits {text : String} {machine : Machine}
    (imported : Scope.Imported (machine.store.scope inner.scope) additions)
    (fits : chart.Fits base main machine) (stands : chart.Stands base frame outline machine.store)
    (isLater : ∀ place, chart frame.scope = some place → place.source < inner.source)
    (loaded : chart inner.scope = some ⟨inner.source, text, .ofText text, []⟩) :
    chart.Fits base main (machine.modifyStore fun store =>
      store.setScope frame.scope ((store.scope frame.scope).add additions)) := by
  apply fits.add stands.existing
  · intro place placed item mem
    obtain ⟨original, inLibrary, rfl⟩ := List.mem_map.mp (imported.bindings.subset mem)
    have later := isLater place placed
    cases (fits.places loaded).binds original inLibrary with
    | imported declared evenLater => exact .imported declared (Nat.lt_trans later evenLater)
    | declared _ _ _ declared => exact .imported declared later
    | bound isBound _ =>
      rw [Body.bound_ofText] at isBound
      cases isBound
  · intro item mem fn isUser
    obtain ⟨original, inLibrary, rfl⟩ := List.mem_map.mp (imported.functions.subset mem)
    exact fits.functions inLibrary isUser

/-- Code keeps a chart, and adds places for the scopes that it makes. -/
theorem Progress.fits {isOpen : Bool} {before after : Machine}
    (progress : Progress frame outline isOpen before after) (begun : base < before.sources)
    (fits : chart.Fits base main before) (stands : chart.Stands base frame outline before.store) :
    ∃ later, Continues before.store chart later ∧ later.Fits base main after := by
  induction progress generalizing chart with
  | kept scopes sources =>
    refine ⟨chart, .refl _ chart, fits.of_alike (by rw [scopes]) sources ?_⟩
    exact fun ref _ => .of_eq (Store.scope_of_scopes_eq scopes ref)
  | trans earlier later first second =>
    obtain ⟨middle, keptFirst, fitsMiddle⟩ := first begun fits stands
    obtain ⟨last, keptSecond, fitsLast⟩ :=
      second (Nat.lt_of_lt_of_le begun earlier.sources_le) fitsMiddle
        (stands.grown keptFirst earlier.size_le)
    exact ⟨last, keptFirst.trans keptSecond earlier.size_le, fitsLast⟩
  | context value =>
    refine ⟨chart, .refl _ chart, fits.of_alike ?_ (Nat.le_refl _) ?_⟩
    · exact Store.size_modifyScope _ _ _
    · exact fun ref existing => Store.alike_setContext _ _ value existing
  | restore _ ih =>
    obtain ⟨later, kept, laterFits⟩ := ih begun fits stands
    refine ⟨later, kept, laterFits.of_alike ?_ (Nat.le_refl _) ?_⟩
    · exact Store.size_modifyScope _ _ _
    · exact fun ref existing => Store.alike_setContext _ _ _ existing
  | declare declares =>
    obtain ⟨additions, rfl, -, declared⟩ := declares.exists_add
    exact ⟨chart, .refl _ chart, declared.fits fits stands⟩
  | assign owner name value =>
    refine ⟨chart, .refl _ chart, fits.of_alike ?_ (Nat.le_refl _) ?_⟩
    · exact Store.size_modifyScope _ _ _
    · exact fun ref existing => Store.alike_setVariable _ owner name value existing
  | enter opens runs ih =>
    obtain ⟨started, keptFirst, startedFits, startedStands⟩ := opens.fits begun fits stands
    obtain ⟨last, keptSecond, lastFits⟩ :=
      ih (Nat.lt_of_lt_of_le begun opens.sources_le) startedFits startedStands
    exact ⟨last, keptFirst.trans keptSecond opens.size_le, lastFits⟩
  | @adopt frame inner outline isOpen path text before started after mem loads runs
      ih =>
      obtain ⟨first, keptFirst, firstFits, innerStands, placed⟩ :=
        fits.loaded loads (Nat.le_of_lt begun) fun same => (Nat.ne_of_gt begun same).elim
      obtain ⟨last, keptSecond, lastFits⟩ :=
        ih (Nat.lt_of_lt_of_le begun loads.sources) firstFits innerStands
      have kept := keptFirst.trans keptSecond loads.size_le
      have lastStands :=
        stands.grown kept (Nat.le_trans loads.size_le runs.size_le)
      have stillPlaced := (keptSecond inner.scope innerStands.existing).trans placed
      have isLater : ∀ place, last frame.scope = some place → place.source < inner.source := by
        intro place isPlaced
        rw [kept frame.scope stands.existing] at isPlaced
        rw [loads.frame]
        exact (fits.places isPlaced).numbered
      obtain ⟨additions, shape, imported⟩ :=
        Scope.mergeFrom_eq_add (after.store.scope frame.scope) (after.store.scope inner.scope)
      refine ⟨last, kept, ?_⟩
      rw [Machine.adopt, Machine.modifyStore, shape]
      exact imported.fits lastFits lastStands isLater stillPlaced

end ArrowScript

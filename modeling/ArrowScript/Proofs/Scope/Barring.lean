import ArrowScript.Proofs.Scope.Cell

namespace ArrowScript

/-!
# Looking past a cell

A reader is barred from a cell whose entry is private, if the entry was imported
or the reader stands outside the scope of the cell.  What a barred reader finds
under any name is the same whatever the cell holds, and everything that code does
to scopes commutes with filling the cell otherwise.
-/

namespace Store

/-- A later state of a store: no scope moves, and no entry is gone or has other traits. -/
structure Grows (before after : Store) : Prop where
  size : before.scopes.size ≤ after.scopes.size
  retains : ∀ ref, before.HasScope ref → (before.scope ref).Retains (after.scope ref)

namespace Grows

variable {before middle after : Store}

theorem of_extends {frame : Frame} {outline : List Element}
    (extended : Extends frame outline before after) : Grows before after where
  size := extended.size
  retains ref existing := by
    by_cases same : ref = frame.scope
    · subst same
      obtain ⟨additions, alike, -⟩ := extended.own existing
      exact (Scope.Retains.add _ additions).trans (.of_alike alike)
    · exact .of_alike (extended.elsewhere ref existing same)

theorem of_scopes_eq (same : after.scopes = before.scopes) : Grows before after where
  size := Nat.le_of_eq (by rw [same])
  retains ref _ := by
    rw [scope_of_scopes_eq same]
    exact .refl _

theorem refl (store : Store) : Grows store store :=
  of_scopes_eq rfl

theorem hasScope {ref : Ref .scope} (grows : Grows before after) (existing : before.HasScope ref) :
    after.HasScope ref :=
  Nat.lt_of_lt_of_le existing grows.size

theorem trans (earlier : Grows before middle) (later : Grows middle after) :
    Grows before after where
  size := Nat.le_trans earlier.size later.size
  retains ref existing :=
    (earlier.retains ref existing).trans (later.retains ref (earlier.hasScope existing))

theorem setContext (store : Store) (ref : Ref .scope) (value : Option Value) :
    Grows store (store.setContext ref value) where
  size := Nat.le_of_eq (store.size_modifyScope ref _).symm
  retains _ existing := .of_alike (store.alike_setContext ref value existing)

theorem setVariable (store : Store) (owner : Ref .scope) (name : String) (value : Value) :
    Grows store (store.setVariable owner name value) where
  size := Nat.le_of_eq (store.size_modifyScope owner _).symm
  retains _ existing := .of_alike (store.alike_setVariable owner name value existing)

theorem newScope (store : Store) (scope : Scope) : Grows store (store.newScope scope).2 where
  size := by
    simp [Store.newScope]
  retains ref existing := by
    have pushed : (store.newScope scope).2.scopes = store.scopes.push scope :=
      rfl
    rw [scope_of_push pushed existing]
    exact .refl _

theorem setScope {store : Store} {ref : Ref .scope} {scope : Scope}
    (retains : (store.scope ref).Retains scope) : Grows store (store.setScope ref scope) where
  size := Nat.le_of_eq (store.size_setScope ref _).symm
  retains other existing := by
    by_cases same : other = ref
    · subst same
      rw [scope_setScope_self existing]
      exact retains
    · rw [scope_setScope_other same]
      exact .refl _

theorem chain_eq {ref : Ref .scope} (grows : Grows before after) (existing : before.HasScope ref) :
    after.chain ref = before.chain ref := by
  apply chain_eq_of_parents
  intro other mem
  apply (grows.retains other _).parent
  obtain ⟨rest, chain, older⟩ := before.chain_eq_cons ref
  rw [chain] at mem
  rcases List.mem_cons.mp mem with rfl | deeper
  · exact existing
  · exact Nat.lt_trans (older other deeper) existing

theorem isWithin {inner outer : Ref .scope} (grows : Grows before after)
    (within : before.isWithin inner outer = true) : after.isWithin inner outer = true := by
  unfold Store.isWithin at within ⊢
  by_cases existing : before.HasScope inner
  · rw [grows.chain_eq existing]
    exact within
  · have isOutermost : (before.scope inner).parent = none := by
      rw [scope_of_not_hasScope existing]
      rfl
    have same : outer = inner := by
      simpa [chain_of_outermost isOutermost] using within
    obtain ⟨rest, chain, -⟩ := after.chain_eq_cons inner
    simp [chain, same]

end Grows

/-- The traits of a cell, if it is there. -/
def traits? (store : Store) (cell : Cell) : Option (Bool × Bool × Option Site) :=
  (((store.scope cell.scope).names cell.kind).lookup cell.name).map Entry.traits

/-- Put a content in a cell. -/
def put (cell : Cell) (content : cell.kind.Content) (store : Store) : Store :=
  store.modifyScope cell.scope (Scope.put cell.kind cell.name content)

/-- What filling a cell otherwise makes of a scope. -/
def putIn (cell : Cell) (content : cell.kind.Content) (ref : Ref .scope) (scope : Scope) : Scope :=
  if ref = cell.scope then scope.put cell.kind cell.name content else scope

variable {store : Store} {cell : Cell} {content : cell.kind.Content} {ref owner : Ref .scope}
  {traits : Bool × Bool × Option Site} {kind : NameKind} {name : String}
  {entry : Entry kind.Content}

theorem hasScope_of_traits? (filled : store.traits? cell = some traits) :
    store.HasScope cell.scope := by
  by_cases existing : store.HasScope cell.scope
  · exact existing
  · unfold traits? at filled
    rw [scope_of_not_hasScope existing] at filled
    obtain ⟨scope, kind, name⟩ := cell
    cases kind <;> cases filled

theorem Grows.traits?_eq {before after : Store} (grows : Grows before after)
    (filled : before.traits? cell = some traits) : after.traits? cell = some traits :=
  (grows.retains _ (hasScope_of_traits? filled)).traits _ _ _ filled

theorem scope_put :
    (store.put cell content).scope ref = putIn cell content ref (store.scope ref) := by
  unfold put putIn
  by_cases same : ref = cell.scope
  · subst same
    rw [if_pos rfl]
    by_cases existing : store.HasScope cell.scope
    · rw [scope_modifyScope_self existing]
    · have absentStill :
          ¬ (store.modifyScope cell.scope
              (Scope.put cell.kind cell.name content)).HasScope cell.scope := by
        unfold HasScope
        rw [size_modifyScope]
        exact existing
      rw [scope_of_not_hasScope existing, scope_of_not_hasScope absentStill, Scope.put_root]
  · rw [if_neg same, scope_modifyScope_other same]

@[simp]
theorem parent_putIn (scope : Scope) : (putIn cell content ref scope).parent = scope.parent := by
  unfold putIn
  split
  · exact Scope.parent_put scope
  · rfl

@[simp]
theorem context_putIn (scope : Scope) : (putIn cell content ref scope).context = scope.context := by
  unfold putIn
  split
  · exact Scope.context_put scope
  · rfl

theorem shape_putIn (kind : NameKind) (scope : Scope) :
    ((putIn cell content ref scope).names kind).shape = (scope.names kind).shape := by
  unfold putIn
  split
  · exact Scope.shape_put kind scope
  · rfl

theorem lookup_putIn {name : String} (different : (⟨ref, kind, name⟩ : Cell) ≠ cell)
    (scope : Scope) :
    ((putIn cell content ref scope).names kind).lookup name = (scope.names kind).lookup name := by
  obtain ⟨owner, filled, filledName⟩ := cell
  unfold putIn
  split
  · rename_i isOwner
    subst isOwner
    by_cases sameKind : kind = filled
    · subst sameKind
      have otherName : name ≠ filledName := by
        rintro rfl
        exact different rfl
      rw [Scope.names_put_self, Namespace.lookup_assign_other _ otherName]
    · rw [Scope.names_put_other sameKind]
  · rfl

@[simp]
theorem size_put : (store.put cell content).scopes.size = store.scopes.size :=
  store.size_modifyScope cell.scope _

@[simp]
theorem traits?_put (other : Cell) :
    (store.put cell content).traits? other = store.traits? other := by
  unfold traits?
  rw [scope_put, Namespace.lookup_of_shape_eq _ (shape_putIn _ _)]

@[simp]
theorem chain_put : (store.put cell content).chain ref = store.chain ref := by
  apply chain_eq_of_parents
  intro other _
  rw [scope_put, parent_putIn]

@[simp]
theorem isWithin_put (inner outer : Ref .scope) :
    (store.put cell content).isWithin inner outer = store.isWithin inner outer := by
  simp only [isWithin, chain_put]

theorem find?_put_self (kind : NameKind) {entry : Entry kind.Content}
    (found : store.find? (Scope.names kind) ref name = some (owner, entry))
    (content : kind.Content) :
    (store.put ⟨owner, kind, name⟩ content).find? (Scope.names kind) ref name =
      some (owner, { entry with value := content }) := by
  unfold find? at found ⊢
  rw [chain_put]
  revert found
  induction store.chain ref with
  | nil =>
    intro found
    cases found
  | cons head rest ih =>
    intro found
    rw [List.findSome?_cons] at found ⊢
    cases present : ((store.scope head).names kind).lookup name with
    | none =>
      have same : (store.put ⟨owner, kind, name⟩ content).traits? ⟨head, kind, name⟩ =
          store.traits? ⟨head, kind, name⟩ :=
        traits?_put _
      unfold traits? at same
      rw [present, Option.map_none, Option.map_eq_none_iff] at same
      rw [present] at found
      rw [same]
      exact ih found
    | some there =>
      rw [present] at found
      cases found
      rw [scope_put, putIn, if_pos rfl, Scope.names_put_self,
        Namespace.lookup_assign_self present content]
      rfl

theorem modifyScope_comm {other : Ref .scope} {change otherChange : Scope → Scope}
    (commute : ref = other → ∀ scope, change (otherChange scope) = otherChange (change scope)) :
    (store.modifyScope other otherChange).modifyScope ref change =
      (store.modifyScope ref change).modifyScope other otherChange := by
  have scopes : (store.scopes.modify other.index otherChange).modify ref.index change =
      (store.scopes.modify ref.index change).modify other.index otherChange := by
    apply Array.ext_getElem?
    intro index
    simp only [Array.getElem?_modify]
    by_cases isRef : ref.index = index
    · by_cases isOther : other.index = index
      · have sameRef : ref = other := ref_eq_of_index_eq (isRef.trans isOther.symm)
        simp only [isRef, isOther, ↓reduceIte]
        cases store.scopes[index]? with
        | none => rfl
        | some scope => exact congrArg some (commute sameRef scope)
      · simp only [isRef, isOther, ↓reduceIte]
    · simp only [isRef, ↓reduceIte]
  simp only [modifyScope, scopes]

theorem setContext_put (context : Option Value) : (store.put cell content).setContext ref context =
      (store.setContext ref context).put cell content := by
  obtain ⟨owner, kind, name⟩ := cell
  apply modifyScope_comm
  intro _ scope
  cases kind <;> rfl

theorem setVariable_put (different : (⟨ref, .variableName, name⟩ : Cell) ≠ cell)
    (value : Value) :
    (store.put cell content).setVariable ref name value =
      (store.setVariable ref name value).put cell content := by
  obtain ⟨owner, kind, filledName⟩ := cell
  apply modifyScope_comm
  intro isOwner scope
  subst isOwner
  apply Scope.put_comm_setBinding
  intro same
  cases same
  exact different rfl

theorem setScope_modifyScope (ref owner : Ref .scope) (change : Scope → Scope) (scope : Scope) :
    (store.modifyScope owner change).setScope ref (if ref = owner then change scope else scope) =
      (store.setScope ref scope).modifyScope owner change := by
  have scopes :
      (store.scopes.modify owner.index change).setIfInBounds ref.index
          (if ref = owner then change scope else scope) =
        (store.scopes.setIfInBounds ref.index scope).modify owner.index change := by
    apply Array.ext_getElem?
    intro index
    simp only [Array.getElem?_modify, Array.getElem?_setIfInBounds, Array.size_modify]
    by_cases isRef : ref.index = index
    · by_cases isOwner : owner.index = index
      · have sameRef : ref = owner := ref_eq_of_index_eq (isRef.trans isOwner.symm)
        simp only [isOwner, ↓reduceIte, sameRef]
        split <;> rfl
      · have otherRef : ref ≠ owner := by
          rintro rfl
          exact isOwner isRef
        simp only [isRef, isOwner, ↓reduceIte, otherRef]
    · simp only [isRef, ↓reduceIte]
  simp only [modifyScope, setScope, scopes]

theorem newScope_modifyScope (existing : store.HasScope ref) (change : Scope → Scope)
    (scope : Scope) : (store.modifyScope ref change).newScope scope =
      ((store.newScope scope).1, (store.newScope scope).2.modifyScope ref change) := by
  have scopes : (store.scopes.modify ref.index change).push scope =
      (store.scopes.push scope).modify ref.index change := by
    apply Array.ext_getElem?
    intro index
    have notLast : ref.index ≠ store.scopes.size :=
      Nat.ne_of_lt existing
    simp only [Array.getElem?_push, Array.getElem?_modify, Array.size_modify]
    by_cases isLast : index = store.scopes.size
    · subst isLast
      simp only [↓reduceIte, notLast]
    · simp only [isLast, ↓reduceIte]
  simp only [modifyScope, newScope, scopes, Array.size_modify]

theorem has_of_traits? (filled : store.traits? cell = some traits) :
    ((store.scope cell.scope).names cell.kind).has cell.name = true := by
  obtain ⟨entry, found, -⟩ := Option.map_eq_some_iff.mp filled
  exact Option.isSome_iff_exists.mpr ⟨entry, found⟩

/--
A reader is barred from a cell: its entry is private, and it was imported or
the reader stands outside.
-/
def Bars (store : Store) (cell : Cell) (reader : Ref .scope) : Prop :=
  ∃ isForeign declared,
    store.traits? cell = some (false, isForeign, declared) ∧
      (isForeign = true ∨ store.isWithin reader cell.scope = false)

theorem isHidden_of_traits {entry : Entry α} {declared : Option Site}
    (traits : entry.traits = (false, true, declared)) : entry.isHidden = true := by
  have isPublic : entry.isPublic = false := congrArg (·.1) traits
  have isForeign : entry.isForeign = true := congrArg (·.2.1) traits
  simp [Entry.isHidden, isPublic, isForeign]

/-- A cell around a barred reader was imported. -/
theorem Bars.exists_traits (bars : store.Bars cell ref) (around : cell.scope ∈ store.chain ref) :
    ∃ declared, store.traits? cell = some (false, true, declared) := by
  obtain ⟨isForeign, declared, traits, kept⟩ := bars
  rcases kept with imported | outside
  · subst imported
    exact ⟨declared, traits⟩
  · simp [isWithin, around] at outside

/-- What stands in a cell around a barred reader is hidden, whatever it is. -/
theorem Bars.lookup_put (bars : store.Bars cell ref) (content : cell.kind.Content) (kind : NameKind)
    (name : String) (around : owner ∈ store.chain ref) :
    (((store.put cell content).scope owner).names kind).lookup name =
      ((store.scope owner).names kind).lookup name ∨ ∃ entry filled,
      ((store.scope owner).names kind).lookup name = some entry ∧
        (((store.put cell content).scope owner).names kind).lookup name = some filled ∧
        entry.isHidden = true ∧ filled.isHidden = true := by
  by_cases same : (⟨owner, kind, name⟩ : Cell) = cell
  · subst same
    obtain ⟨declared, traits⟩ := bars.exists_traits around
    have traitsStill : (store.put ⟨owner, kind, name⟩ content).traits? ⟨owner, kind, name⟩ =
        some (false, true, declared) := by
      rw [traits?_put, traits]
    obtain ⟨entry, found, entryTraits⟩ := Option.map_eq_some_iff.mp traits
    obtain ⟨filled, foundStill, filledTraits⟩ := Option.map_eq_some_iff.mp traitsStill
    exact
      .inr
        ⟨entry, filled, found, foundStill, isHidden_of_traits entryTraits,
          isHidden_of_traits filledTraits⟩
  · rw [scope_put]
    exact .inl (lookup_putIn same _)

/-- A barred reader finds the same under a name, or finds it hidden. -/
theorem Bars.find?_put (bars : store.Bars cell ref) (kind : NameKind) (name : String) :
    (store.put cell content).find? (Scope.names kind) ref name =
      store.find? (Scope.names kind) ref name ∨ ∃ entry filled,
      store.find? (Scope.names kind) ref name = some entry ∧
        (store.put cell content).find? (Scope.names kind) ref name = some filled ∧
        entry.2.isHidden = true ∧ filled.2.isHidden = true := by
  have seen : ∀ owner ∈ store.chain ref, _ :=
    fun owner around => bars.lookup_put content kind name around
  unfold find?
  rw [chain_put]
  revert seen
  induction store.chain ref with
  | nil => exact fun _ => .inl rfl
  | cons head rest ih =>
    intro seen
    simp only [List.findSome?_cons]
    rcases seen head List.mem_cons_self with same | ⟨entry, filled, found, foundStill, hidden⟩
    · rw [same]
      cases ((store.scope head).names kind).lookup name with
      | none => exact ih fun owner around => seen owner (.tail head around)
      | some entry => exact .inl rfl
    · rw [found, foundStill]
      exact .inr ⟨_, _, rfl, rfl, hidden⟩

theorem Bars.visible_put (bars : store.Bars cell ref) (content : cell.kind.Content)
    (kind : NameKind) (name : String) :
    (store.put cell content).visible kind (Scope.names kind) ref name =
      store.visible kind (Scope.names kind) ref name := by
  unfold visible
  rcases bars.find?_put kind name with
    same | ⟨entry, filled, found, foundStill, hidden, hiddenStill⟩
  · rw [same]
  · simp only [found, foundStill, hidden, hiddenStill, ↓reduceIte]

/-- The variable that a barred reader may assign to is not the one in the cell. -/
theorem Bars.cell_ne_of_ownerOf (bars : store.Bars cell ref)
    (found : store.ownerOf ref name = .ok owner) :
    (⟨owner, .variableName, name⟩ : Cell) ≠ cell := by
  rintro rfl
  unfold ownerOf at found
  cases seen : store.visible .variableName Scope.bindings ref name with
  | error fault =>
    rw [seen] at found
    cases found
  | ok item =>
    rw [seen] at found
    cases found
    obtain ⟨around, isThere, shown⟩ := visible_eq_ok seen
    obtain ⟨declared, traits⟩ := bars.exists_traits around
    obtain ⟨there, found, thereTraits⟩ := Option.map_eq_some_iff.mp traits
    cases isThere.symm.trans found
    exact Bool.noConfusion (shown.symm.trans (isHidden_of_traits thereTraits))

theorem member_refused {names : Scope → Namespace kind.Content} {group reader : Ref .scope}
    {isForeign : Bool} {declared : Option Site}
    (found : (names (store.scope group)).lookup name = some entry)
    (traits : entry.traits = (false, isForeign, declared))
    (kept : isForeign = true ∨ store.isWithin reader group = false) :
    store.member kind names group reader name = .error (.inaccessible kind name) := by
  have isPublic : entry.isPublic = false := congrArg (·.1) traits
  have sameForeign : entry.isForeign = isForeign := congrArg (·.2.1) traits
  unfold member Scope.member
  rw [found]
  rcases kept with imported | outside
  · simp [isPublic, sameForeign, imported]
  · simp [isPublic, outside]

theorem Bars.member_put {reader : Ref .scope} (bars : store.Bars cell reader)
    (content : cell.kind.Content) (kind : NameKind) (group : Ref .scope) (name : String) :
    (store.put cell content).member kind (Scope.names kind) group reader name =
      store.member kind (Scope.names kind) group reader name := by
  by_cases same : (⟨group, kind, name⟩ : Cell) = cell
  · subst same
    obtain ⟨isForeign, declared, traits, kept⟩ := bars
    have traitsStill : (store.put ⟨group, kind, name⟩ content).traits? ⟨group, kind, name⟩ =
        some (false, isForeign, declared) := by
      rw [traits?_put, traits]
    obtain ⟨entry, found, entryTraits⟩ := Option.map_eq_some_iff.mp traits
    obtain ⟨filled, foundStill, filledTraits⟩ := Option.map_eq_some_iff.mp traitsStill
    rw [member_refused found entryTraits kept]
    apply member_refused foundStill filledTraits
    rw [isWithin_put]
    exact kept
  · unfold member
    rw [isWithin_put, scope_put]
    unfold Scope.member
    rw [lookup_putIn same]

/-- A member that a barred reader was given before is not the one in the cell. -/
theorem Bars.cell_ne_of_member {earlier : Store} {group reader : Ref .scope}
    (bars : store.Bars cell reader) (grows : earlier.Grows store)
    (given : earlier.member kind (Scope.names kind) group reader name = .ok entry) :
    (⟨group, kind, name⟩ : Cell) ≠ cell := by
  rintro rfl
  obtain ⟨isForeign, declared, traits, kept⟩ := bars
  obtain ⟨found, permitted⟩ := member_eq_ok given
  have earlierTraits : earlier.traits? ⟨group, kind, name⟩ = some entry.traits := by
    unfold traits?
    rw [found]
    rfl
  have sameTraits : entry.traits = (false, isForeign, declared) :=
    Option.some.inj ((grows.traits?_eq earlierTraits).symm.trans traits)
  have sameForeign : entry.isForeign = isForeign := congrArg (·.2.1) sameTraits
  obtain ⟨isOwn, within⟩ := permitted (congrArg (·.1) sameTraits)
  rcases kept with imported | outside
  · exact Bool.noConfusion (isOwn.symm.trans (sameForeign.trans imported))
  · exact Bool.noConfusion ((grows.isWithin within).symm.trans outside)

end Store

end ArrowScript

import ArrowScript.Proofs.Scope.Barring
import ArrowScript.Proofs.Scope.Operation

namespace ArrowScript

/-!
# The nearest variable of a name

Going outwards from a scope, the first variable of a name is the one that is read
and assigned.  An assignment changes what is read exactly where this first variable
is the assigned one.
-/

namespace Store

/-- Going outwards from a scope, the first variable of a name, and the scope that has it. -/
inductive Nearest (store : Store) (name : String) :
    Ref .scope → Ref .scope → Entry Value → Prop
  | here {ref : Ref .scope} {entry : Entry Value} :
      (store.scope ref).bindings.lookup name = some entry → Nearest store name ref ref entry
  | outwards {ref parent owner : Ref .scope} {entry : Entry Value} :
      (store.scope ref).bindings.lookup name = none → (store.scope ref).parent = some parent →
      Nearest store name parent owner entry → Nearest store name ref owner entry

/-- Every parent is older than its child. -/
def Layered (store : Store) : Prop :=
  ∀ ref, ∀ parent ∈ (store.scope ref).parent, parent.index < ref.index

/-- From both scopes a name stands for one and the same entry. -/
def Shares (store : Store) (name : String) (ref other : Ref .scope) : Prop :=
  ∃ owner entry, store.Nearest name ref owner entry ∧ store.Nearest name other owner entry

variable {store : Store} {name : String} {ref other owner : Ref .scope} {entry : Entry Value}

theorem find?_of_nearest (layered : store.Layered) (nearest : store.Nearest name ref owner entry) :
    store.find? Scope.bindings ref name = some (owner, entry) := by
  induction nearest with
  | @here ref _ found =>
    obtain ⟨rest, chain, -⟩ := store.chain_eq_cons ref
    rw [find?_eq_findIn, chain]
    exact findIn_cons_of_some found
  | @outwards ref parent _ _ absent isParent _ ih =>
    rw [find?_eq_findIn, chain_of_parent isParent (layered ref parent isParent),
      findIn_cons_of_none absent]
    exact ih

theorem nearest_of_find? (found : store.find? Scope.bindings ref name = some (owner, entry)) :
    store.Nearest name ref owner entry := by
  rw [find?_eq_findIn] at found
  fun_induction Store.chain store ref with
  | case1 ref isParent | case3 ref parent isParent notOlder =>
    obtain ⟨mem, isThere⟩ := findIn_eq_some found
    cases List.mem_singleton.mp mem
    exact .here isThere
  | case2 ref parent isParent older ih =>
    cases isThere : (store.scope ref).bindings.lookup name with
    | some present =>
      rw [findIn_cons_of_some isThere] at found
      cases found
      exact .here isThere
    | none =>
      rw [findIn_cons_of_none isThere] at found
      exact .outwards isThere isParent (ih found)

theorem variableNamed_none (store : Store) (ref : Ref .scope) (name : String) :
    store.variableNamed ref none name =
      (store.visible .variableName Scope.bindings ref name).map (·.2.value) := by
  unfold variableNamed
  cases store.visible .variableName Scope.bindings ref name <;> rfl

theorem assignVariable_eq (store : Store) (ref : Ref .scope) (name : String) (value : Value) :
    store.assignVariable ref name value =
      (store.visible .variableName Scope.bindings ref name).map fun found =>
        store.put ⟨found.1, .variableName, name⟩ value := by
  unfold assignVariable ownerOf
  cases store.visible .variableName Scope.bindings ref name <;> rfl

theorem visible_eq_ok_iff :
    store.visible .variableName Scope.bindings ref name = .ok (owner, entry) ↔
      store.find? Scope.bindings ref name = some (owner, entry) ∧ entry.isHidden = false := by
  unfold visible
  cases found : store.find? Scope.bindings ref name with
  | none => simp
  | some present =>
    by_cases isHidden : present.2.isHidden = true
    · simp only [isHidden, if_true, reduceCtorEq, Option.some.injEq, false_iff]
      rintro ⟨rfl, isShown⟩
      cases isHidden.symm.trans isShown
    · simp only [isHidden, Bool.false_eq_true, if_false, Except.ok.injEq, Option.some.injEq,
        iff_self_and]
      rintro rfl
      exact Bool.eq_false_iff.mpr isHidden

theorem find?_put_other (kind : NameKind) {read : String} (different :
      ∀ entry, store.find? (Scope.names kind) other read = some (owner, entry) → read ≠ name)
    (content : kind.Content) :
    (store.put ⟨owner, kind, name⟩ content).find? (Scope.names kind) other read =
      store.find? (Scope.names kind) other read := by
  unfold find? at different ⊢
  rw [chain_put]
  revert different
  induction store.chain other with
  | nil =>
    intro _
    rfl
  | cons head rest ih =>
    intro different
    rw [List.findSome?_cons] at different ⊢
    rw [List.findSome?_cons]
    cases present : ((store.scope head).names kind).lookup read with
    | some there =>
      have otherCell : (⟨head, kind, read⟩ : Cell) ≠ ⟨owner, kind, name⟩ := by
        rintro ⟨⟩
        exact different there (by rw [present]; rfl) rfl
      rw [scope_put, lookup_putIn otherCell, present]
      rfl
    | none =>
      have same : (store.put ⟨owner, kind, name⟩ content).traits? ⟨head, kind, read⟩ =
          store.traits? ⟨head, kind, read⟩ :=
        traits?_put _
      unfold traits? at same
      rw [present, Option.map_none, Option.map_eq_none_iff] at same
      rw [present] at different
      rw [same]
      exact ih different

theorem variableNamed_eq_ok_iff (layered : store.Layered) {value : Value} :
    store.variableNamed ref none name = .ok value ↔ ∃ owner entry,
      store.Nearest name ref owner entry ∧ entry.isHidden = false ∧ entry.value = value := by
  rw [variableNamed_none]
  constructor
  · intro read
    cases seen : store.visible .variableName Scope.bindings ref name with
    | error fault =>
      rw [seen] at read
      cases read
    | ok found =>
      rw [seen] at read
      cases read
      obtain ⟨isFound, isShown⟩ := visible_eq_ok_iff.mp seen
      exact ⟨found.1, found.2, nearest_of_find? isFound, isShown, rfl⟩
  · rintro ⟨owner, entry, nearest, isShown, rfl⟩
    rw [visible_eq_ok_iff.mpr ⟨find?_of_nearest layered nearest, isShown⟩]
    rfl

theorem variableNamed_put_shared {value : Value} (layered : store.Layered)
    (nearest : store.Nearest name other owner entry) (isShown : entry.isHidden = false) :
    (store.put ⟨owner, .variableName, name⟩ value).variableNamed other none name =
      .ok value := by
  have found := find?_put_self .variableName (find?_of_nearest layered nearest) value
  have seen := visible_eq_ok_iff.mpr ⟨found, isShown⟩
  rw [variableNamed_none, seen]
  rfl

theorem variableNamed_put_other {read : String} {value : Value}
    (different : ∀ entry, store.Nearest read other owner entry → read ≠ name) :
    (store.put ⟨owner, .variableName, name⟩ value).variableNamed other none read =
      store.variableNamed other none read := by
  have same := find?_put_other .variableName
    (fun entry found => different entry (nearest_of_find? found)) value
  have sameNames :
      (store.put ⟨owner, .variableName, name⟩ value).find? Scope.bindings other read =
        store.find? Scope.bindings other read := same
  unfold variableNamed visible
  rw [sameNames]

end Store

/-- What reading a variable gives: the nearest one of its name, unless it is hidden. -/
structure Store.ReadsNearest (store : Store) (ref : Ref .scope) (name : String) : Prop where
  gives : ∀ value, store.variableNamed ref none name = .ok value ↔ ∃ owner entry,
    store.Nearest name ref owner entry ∧ ¬
      (entry.isForeign = true ∧ entry.isPublic = false) ∧
      entry.value = value
  fails : (∃ fault, store.variableNamed ref none name = .error fault) ↔
    (∀ owner entry, ¬ store.Nearest name ref owner entry) ∨ ∃ owner entry,
        store.Nearest name ref owner entry ∧ entry.isForeign = true ∧ entry.isPublic = false

/-- What an assignment in one scope does to what is read from every scope, if it succeeds. -/
structure Store.AssignsNearest (before after : Store) (ref : Ref .scope) (name : String)
    (value : Value) : Prop where
  shared : ∀ other, before.Shares name ref other →
    after.variableNamed other none name = .ok value
  others : ∀ other read, ¬ (read = name ∧ before.Shares name ref other) →
    after.variableNamed other none read = before.variableNamed other none read

theorem Entry.isHidden_eq_false_iff {entry : Entry α} :
    entry.isHidden = false ↔ ¬ (entry.isForeign = true ∧ entry.isPublic = false) := by
  simp [isHidden]

theorem Store.Layered.reads {store : Store} (layered : store.Layered) (ref : Ref .scope)
    (name : String) : store.ReadsNearest ref name where
  gives value := by
    rw [variableNamed_eq_ok_iff layered]
    simp only [Entry.isHidden_eq_false_iff]
  fails := by
    constructor
    · rintro ⟨fault, refused⟩
      by_cases isThere : ∃ owner entry, store.Nearest name ref owner entry
      · obtain ⟨owner, entry, nearest⟩ := isThere
        refine .inr ⟨owner, entry, nearest, ?_⟩
        by_contra isShown
        have read := (variableNamed_eq_ok_iff layered).mpr
          ⟨owner, entry, nearest, Entry.isHidden_eq_false_iff.mpr isShown, rfl⟩
        cases refused.symm.trans read
      · exact .inl fun owner entry nearest => isThere ⟨owner, entry, nearest⟩
    · intro hiddenOrNone
      cases read : store.variableNamed ref none name with
      | error fault => exact ⟨fault, rfl⟩
      | ok value =>
        obtain ⟨owner, entry, nearest, isShown, -⟩ := (variableNamed_eq_ok_iff layered).mp read
        rcases hiddenOrNone with absent | ⟨hiddenOwner, hidden, isNearest, isHidden⟩
        · exact (absent owner entry nearest).elim
        · have same := (find?_of_nearest layered nearest).symm.trans
            (find?_of_nearest layered isNearest)
          cases same
          exact (Entry.isHidden_eq_false_iff.mp isShown isHidden).elim

theorem Store.Layered.assigns {store : Store} {ref owner : Ref .scope} {name : String}
    {entry : Entry Value} (layered : store.Layered) (nearest : store.Nearest name ref owner entry)
    (isShown : entry.isHidden = false) (value : Value) :
    store.AssignsNearest (store.put ⟨owner, .variableName, name⟩ value) ref name value where
  shared := by
    rintro other ⟨sharedOwner, shared, fromRef, fromOther⟩
    cases (find?_of_nearest layered nearest).symm.trans (find?_of_nearest layered fromRef)
    exact variableNamed_put_shared layered fromOther isShown
  others := by
    intro other read apart
    apply variableNamed_put_other
    rintro found fromOther rfl
    have sameEntry : entry = found := by
      have atRef := (findIn_eq_some (find?_of_nearest layered nearest)).2
      have atOther := (findIn_eq_some (find?_of_nearest layered fromOther)).2
      exact Option.some.inj (atRef.symm.trans atOther)
    subst sameEntry
    exact apart ⟨rfl, owner, entry, nearest, fromOther⟩

/--
Reading gives the value of the nearest variable and fails if there is none or it
is hidden.  An assignment succeeds where reading does and is read from the scopes
that share the variable; all else is read as before, also when it fails.
-/
theorem nearest_variable_read_and_assigned
    {store : Store}
    (layered : store.Layered)
    (registry : Registry)
    (ref : Ref .scope)
    (name : String)
    (value : Value)
    (site : Option Site) :
    store.ReadsNearest ref name ∧
      ((∃ found, store.variableNamed ref none name = .ok found) →
        ∃ after,
          Operation.perform registry store (.assign ref name value site) = (.done, after) ∧
            store.AssignsNearest after ref name value) ∧
      ((∃ fault, store.variableNamed ref none name = .error fault) →
        ∃ error,
          Operation.perform registry store (.assign ref name value site) =
            (.refused error, store)) := by
  have performed :
      Operation.perform registry store (.assign ref name value site) =
        Operation.changing store site (store.assignVariable ref name value) := rfl
  rw [performed, store.assignVariable_eq, store.variableNamed_none]
  refine ⟨layered.reads ref name, ?_, ?_⟩
  · rintro ⟨found, read⟩
    cases seen : store.visible .variableName Scope.bindings ref name with
    | error fault =>
      rw [seen] at read
      cases read
    | ok nearest =>
      obtain ⟨isFound, isShown⟩ := Store.visible_eq_ok_iff.mp seen
      exact ⟨_, rfl, layered.assigns (Store.nearest_of_find? isFound) isShown value⟩
  · rintro ⟨fault, refused⟩
    cases seen : store.visible .variableName Scope.bindings ref name with
    | error fault => exact ⟨_, rfl⟩
    | ok nearest =>
      rw [seen] at refused
      cases refused

/-- Two scopes inside one that has a variable, of which the second has one of the same name. -/
def Store.shadowing : Store :=
  { Store.empty with
    scopes :=
      #[{ Scope.root with bindings := [("x", { value := .null, isPublic := false })] },
        .child ⟨0⟩,
        { Scope.child ⟨0⟩ with bindings := [("x", { value := .null, isPublic := true })] }] }

theorem Store.shadowing_layered : Store.shadowing.Layered := by
  rintro ⟨index⟩ parent isParent
  match index with
  | 0 => cases isParent
  | 1 | 2 =>
    cases isParent
    decide
  | index + 3 => cases isParent

theorem nearest_variable_read_and_assigned_from_inside :
    Store.shadowing.Layered ∧
      ∃ after,
        Operation.perform .standard Store.shadowing (.assign ⟨1⟩ "x" (.bool true) none) =
            (.done, after) ∧
          Store.shadowing.AssignsNearest after ⟨1⟩ "x" (.bool true) := by
  have layered := Store.shadowing_layered
  have nearest : Store.shadowing.Nearest "x" ⟨1⟩ ⟨0⟩ _ := .outwards rfl rfl (.here rfl)
  have read := (Store.variableNamed_eq_ok_iff layered).mpr ⟨_, _, nearest, rfl, rfl⟩
  exact
    ⟨layered,
      (nearest_variable_read_and_assigned layered .standard ⟨1⟩ "x" (.bool true) none).2.1
        ⟨_, read⟩⟩

end ArrowScript

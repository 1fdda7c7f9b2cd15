import ArrowScript.Proofs.Scope.Extension

namespace ArrowScript

/-!
# Finding variables in scopes that have grown

The scopes around a scope stay the same while code runs.  So a variable found
after code has run in a scope was there before, or the code itself has declared
or imported it.
-/

variable {owner : Ref .scope}

namespace Namespace

variable {α : Type}

theorem lookup_shape (names : Namespace α) (name : String) :
    names.shape.lookup name = (names.lookup name).map Entry.traits := by
  induction names with
  | nil => rfl
  | cons item rest ih =>
    obtain ⟨first, entry⟩ := item
    show List.lookup name ((first, entry.traits) :: shape rest) = _
    by_cases isFirst : (name == first) = true
    · simp only [List.lookup_cons, isFirst, Option.map_some]
    · simp only [List.lookup_cons, isFirst]
      exact ih

theorem lookup_of_shape_eq {first second : Namespace α} (name : String)
    (same : second.shape = first.shape) :
    (second.lookup name).map Entry.traits = (first.lookup name).map Entry.traits := by
  rw [← lookup_shape, ← lookup_shape, same]

end Namespace

namespace Store

variable {before after store : Store} {ref : Ref .scope}

theorem chain_of_outermost (isParent : (store.scope ref).parent = none) :
    store.chain ref = [ref] := by
  rw [Store.chain, isParent]

theorem chain_of_parent {parent : Ref .scope} (isParent : (store.scope ref).parent = some parent)
    (older : parent.index < ref.index) : store.chain ref = ref :: store.chain parent := by
  rw [Store.chain, isParent]
  exact if_pos older

theorem chain_eq_cons (store : Store) (ref : Ref .scope) :
    ∃ rest, store.chain ref = ref :: rest ∧ ∀ other ∈ rest, other.index < ref.index := by
  fun_induction Store.chain store ref with
  | case1 ref isParent => exact ⟨[], rfl, by simp⟩
  | case2 ref parent isParent older ih =>
    obtain ⟨rest, chain, younger⟩ := ih
    refine ⟨store.chain parent, rfl, ?_⟩
    intro other mem
    rw [chain] at mem
    rcases List.mem_cons.mp mem with rfl | deeper
    · exact older
    · exact Nat.lt_trans (younger other deeper) older
  | case3 ref parent isParent notOlder => exact ⟨[], rfl, by simp⟩

theorem chain_eq_of_parents (parents :
      ∀ other ∈ before.chain ref, (after.scope other).parent = (before.scope other).parent) :
    after.chain ref = before.chain ref := by
  fun_induction Store.chain before ref with
  | case1 ref isParent =>
    have same := parents ref (by simp)
    exact chain_of_outermost (same.trans isParent)
  | case2 ref parent isParent older ih =>
    have same := parents ref (by simp)
    rw [chain_of_parent (same.trans isParent) older]
    rw [ih fun other mem => parents other (List.mem_cons_of_mem ref mem)]
  | case3 ref parent isParent notOlder =>
    have same := parents ref (by simp)
    rw [Store.chain, same.trans isParent]
    exact if_neg notOlder

/-- The nearest of some scopes that defines a variable, and its entry there. -/
def findIn (store : Store) (refs : List (Ref .scope))
    (name : String) : Option (Ref .scope × Entry Value) :=
  refs.findSome? fun each =>
    ((store.scope each).bindings.lookup name).map fun entry => (each, entry)

theorem find?_eq_findIn (store : Store) (ref : Ref .scope) (name : String) :
    store.find? Scope.bindings ref name = store.findIn (store.chain ref) name :=
  rfl

variable {refs : List (Ref .scope)} {name : String} {entry : Entry Value}

theorem findIn_cons_of_some (found : (store.scope ref).bindings.lookup name = some entry) :
    store.findIn (ref :: refs) name = some (ref, entry) := by
  simp [findIn, found]

theorem findIn_cons_of_none (absent : (store.scope ref).bindings.lookup name = none) :
    store.findIn (ref :: refs) name = store.findIn refs name := by
  simp [findIn, absent]

theorem findIn_eq_some (found : store.findIn refs name = some (owner, entry)) :
    owner ∈ refs ∧ (store.scope owner).bindings.lookup name = some entry := by
  obtain ⟨each, mem, isFound⟩ := List.exists_of_findSome?_eq_some found
  obtain ⟨there, isThere, same⟩ := Option.map_eq_some_iff.mp isFound
  cases same
  exact ⟨mem, isThere⟩

/-- Scopes that stay alike still define a variable where they did. -/
theorem findIn_of_shapes
    (shapes : ∀ ref ∈ refs, (after.scope ref).bindings.shape =
      (before.scope ref).bindings.shape)
    (found : after.findIn refs name = some (owner, entry)) :
    ∃ earlier, before.findIn refs name = some (owner, earlier) ∧
      earlier.traits = entry.traits := by
  induction refs with
  | nil => cases found
  | cons ref rest ih =>
    have same :=
      Namespace.lookup_of_shape_eq name (shapes ref List.mem_cons_self)
    cases isThere : (after.scope ref).bindings.lookup name with
    | some current =>
      rw [findIn_cons_of_some isThere] at found
      cases found
      rw [isThere] at same
      obtain ⟨earlier, wasThere, sameTraits⟩ := Option.map_eq_some_iff.mp same.symm
      exact ⟨earlier, findIn_cons_of_some wasThere, sameTraits⟩
    | none =>
      rw [findIn_cons_of_none isThere] at found
      rw [isThere] at same
      have wasAbsent := Option.map_eq_none_iff.mp same.symm
      rw [findIn_cons_of_none wasAbsent]
      exact
        ih (fun other mem => shapes other (List.mem_cons_of_mem ref mem))
          found

end Store

namespace Store.Extends

variable {frame : Frame} {outline : List Element} {before after : Store}

variable (extended : Extends frame outline before after)

include extended

theorem parent_eq {ref : Ref .scope} (existing : before.HasScope ref) :
    (after.scope ref).parent = (before.scope ref).parent := by
  by_cases same : ref = frame.scope
  · subst same
    obtain ⟨additions, alike, -⟩ := extended.own existing
    exact alike.parent
  · exact (extended.elsewhere ref existing same).parent

theorem chain_eq {ref : Ref .scope}
    (existing : ∀ other ∈ before.chain ref, before.HasScope other) :
    after.chain ref = before.chain ref :=
  chain_eq_of_parents fun other mem => extended.parent_eq (existing other mem)

/-- In the scope where code runs a name stands for what it did before, else for what was added. -/
theorem exists_lookup_own (existing : before.HasScope frame.scope) (name : String) :
    ∃ additions : Additions, additions.Introduced frame outline ∧
      ((after.scope frame.scope).bindings.lookup name).map Entry.traits =
        (((before.scope frame.scope).bindings.lookup name).map Entry.traits).or
          ((additions.bindings.lookup name).map Entry.traits) := by
  obtain ⟨additions, alike, introduced⟩ := extended.own existing
  have shape : (after.scope frame.scope).bindings.shape = Namespace.shape (_ ++ _) :=
    alike.bindings
  refine ⟨additions, introduced, ?_⟩
  rw [← Namespace.lookup_shape, ← Namespace.lookup_shape, ← Namespace.lookup_shape, shape,
    Namespace.shape_append, List.lookup_append]

theorem lookup_own_none {name : String} (existing : before.HasScope frame.scope)
    (absent : (after.scope frame.scope).bindings.lookup name = none) :
    (before.scope frame.scope).bindings.lookup name = none := by
  obtain ⟨additions, -, traits⟩ := extended.exists_lookup_own existing name
  rw [absent] at traits
  exact Option.map_eq_none_iff.mp (Option.or_eq_none_iff.mp traits.symm).1

variable {name : String}

/-- A variable of the scope where code runs was there before, or the code has introduced it. -/
theorem lookup_own_some {entry : Entry Value} (existing : before.HasScope frame.scope)
    (found : (after.scope frame.scope).bindings.lookup name = some entry) :
    (∃ earlier, (before.scope frame.scope).bindings.lookup name = some earlier ∧
          earlier.traits = entry.traits) ∨ entry.IsImported outline ∨
      Declared.Variable frame outline (name, entry) := by
  obtain ⟨additions, introduced, traits⟩ := extended.exists_lookup_own existing name
  rw [found] at traits
  cases wasThere : (before.scope frame.scope).bindings.lookup name with
  | some earlier =>
    rw [wasThere] at traits
    exact .inl ⟨earlier, rfl, (Option.some.inj traits).symm⟩
  | none =>
    rw [wasThere] at traits
    obtain ⟨added, isAdded, sameTraits⟩ := Option.map_eq_some_iff.mp traits.symm
    have sameForeign : added.isForeign = entry.isForeign := congrArg (·.2.1) sameTraits
    have sameSite : added.declared = entry.declared := congrArg (·.2.2) sameTraits
    rcases introduced.bindings (name, added) (Namespace.mem_of_lookup isAdded) with
      ⟨isForeign, used⟩ | ⟨declared, mem, sameName, isOwn, site⟩
    · exact .inr (.inl ⟨sameForeign ▸ isForeign, used⟩)
    · exact .inr (.inr ⟨declared, mem, sameName, sameForeign ▸ isOwn, sameSite ▸ site⟩)

/--
A variable found from the scope of a frame after code has run there was found
before in the same scope, with the same traits, or it is new in this scope.
-/
theorem found_again_or_new {entry : Entry Value}
    (existing : ∀ other ∈ before.chain frame.scope, before.HasScope other)
    (found : after.find? Scope.bindings frame.scope name = some (owner, entry)) :
    (∃ earlier, before.find? Scope.bindings frame.scope name = some (owner, earlier) ∧
        earlier.traits = entry.traits) ∨ owner = frame.scope ∧
      (before.scope frame.scope).bindings.lookup name = none ∧
      (after.scope frame.scope).bindings.lookup name = some entry := by
  have sameChain := extended.chain_eq existing
  obtain ⟨rest, chain, older⟩ := before.chain_eq_cons frame.scope
  rw [find?_eq_findIn, sameChain, chain] at found
  rw [find?_eq_findIn, chain]
  rw [chain] at existing
  have restShapes :
      ∀ ref ∈ rest, (after.scope ref).bindings.shape = (before.scope ref).bindings.shape := by
    intro ref mem
    have different : ref ≠ frame.scope := by
      rintro rfl
      exact Nat.lt_irrefl _ (older _ mem)
    exact (extended.elsewhere ref (existing ref (.tail _ mem)) different).bindings
  have ownExists := existing frame.scope List.mem_cons_self
  cases isThere : (after.scope frame.scope).bindings.lookup name with
  | some current =>
    rw [findIn_cons_of_some isThere] at found
    cases found
    cases wasThere : (before.scope frame.scope).bindings.lookup name with
    | none => exact .inr ⟨rfl, rfl, rfl⟩
    | some earlier =>
      obtain ⟨additions, -, traits⟩ := extended.exists_lookup_own ownExists name
      rw [isThere, wasThere] at traits
      exact .inl ⟨earlier, findIn_cons_of_some wasThere, (Option.some.inj traits).symm⟩
  | none =>
    rw [findIn_cons_of_none isThere] at found
    obtain ⟨earlier, wasFound, sameTraits⟩ := findIn_of_shapes restShapes found
    have wasAbsent := extended.lookup_own_none ownExists isThere
    rw [findIn_cons_of_none wasAbsent]
    exact .inl ⟨earlier, wasFound, sameTraits⟩

/-- A variable that was not found before is one that the code has introduced. -/
theorem found_again {entry : Entry Value}
    (existing : ∀ other ∈ before.chain frame.scope, before.HasScope other)
    (found : after.find? Scope.bindings frame.scope name = some (owner, entry)) :
    (∃ earlier, before.find? Scope.bindings frame.scope name = some (owner, earlier) ∧
          earlier.traits = entry.traits) ∨ entry.IsImported outline ∨
      Declared.Variable frame outline (name, entry) := by
  refine (extended.found_again_or_new existing found).imp_right ?_
  rintro ⟨-, wasAbsent, isThere⟩
  obtain ⟨rest, chain, -⟩ := before.chain_eq_cons frame.scope
  have ownExists := existing frame.scope (by rw [chain]; exact List.mem_cons_self)
  refine (extended.lookup_own_some ownExists isThere).resolve_left ?_
  rintro ⟨earlier, wasThere, -⟩
  cases wasAbsent.symm.trans wasThere

end Store.Extends

end ArrowScript

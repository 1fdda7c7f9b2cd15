import Mathlib.Data.Finset.Insert
import Mathlib.Data.Finset.Basic
import Mathlib.Logic.Relation
import ArrowScript.Proofs.Store.Text

namespace ArrowScript

/-!
# Printing any heap

Arrays and objects may hold one another in any way, also as keys, and a container
may hold itself.  `Shows` says what is printed for a value inside the containers
that are being printed around it, given which containers are cut short there.
Every value has one text if those are cut short that are being printed already,
and the same text without any cuts if no container lies inside itself.

`print` prints with one set of the containers in progress for all values: a
container is put into it at its start and taken out at its end.
-/

/-- What is printed for a container that is cut short. -/
def Value.cutShort : Value → String
  | .object _ => "(...)"
  | _ => "[...]"

namespace Store

/-- What is printed for a value inside the containers on its path. -/
inductive Shows (store : Store) (cuts : List Value → Value → Prop) :
    List Value → Bool → Value → String → Prop
  | plain {path : List Value} {quoted : Bool} {value : Value} : value.isContainer = false →
      Shows store cuts path quoted value (store.textIn 0 [] quoted value)
  | short {path : List Value} {quoted : Bool} {value : Value} : value.isContainer = true →
      cuts path value → Shows store cuts path quoted value value.cutShort
  | array {path : List Value} {quoted : Bool} {ref : Ref .array} (write : Value → String) :
      ¬ cuts path (.array ref) → (∀ item ∈ (store.items ref).toList,
        Shows store cuts (.array ref :: path) true item (write item)) →
      Shows store cuts path quoted (.array ref)
        ("[" ++ commaSeparated ((store.items ref).toList.map write) ++ "]")
  | object {path : List Value} {quoted : Bool} {ref : Ref .object} (write : Value → String) :
      ¬ cuts path (.object ref) → (∀ item ∈ store.object ref,
        Shows store cuts (.object ref :: path) true item.key (write item.key)) →
      (∀ item ∈ store.object ref,
        Shows store cuts (.object ref :: path) true item.value (write item.value)) →
      Shows store cuts path quoted (.object ref)
        ("(" ++ commaSeparated ((store.object ref).map fun item =>
          write item.key ++ ": " ++ write item.value) ++ ")")

/-- What is printed if a container is cut short inside itself. -/
abbrev ShowsOnce (store : Store) : List Value → Bool → Value → String → Prop :=
  store.Shows fun path value => value ∈ path

/-- What is printed by going through everything, with no look at the path. -/
abbrev ShowsAll (store : Store) : List Value → Bool → Value → String → Prop :=
  store.Shows fun _ _ => False

/-- A container has a value as an item, as a key or under a key. -/
def Holds (store : Store) (outer inner : Value) : Prop :=
  match outer with
  | .array ref => inner ∈ (store.items ref).toList
  | .object ref => ∃ item ∈ store.object ref, inner = item.key ∨ inner = item.value
  | _ => False

/-- No container that is reached from a value lies inside itself. -/
def Unrolls (store : Store) (value : Value) : Prop :=
  ∀ inner, Relation.ReflTransGen store.Holds value inner →
    ¬ Relation.TransGen store.Holds inner inner

variable {store : Store} {path : List Value} {quoted : Bool} {value : Value} {text : String}

theorem Shows.unique {cuts : List Value → Value → Prop} {other : String}
    (shows : store.Shows cuts path quoted value text)
    (otherShows : store.Shows cuts path quoted value other) : text = other := by
  induction shows generalizing other with
  | plain isPlain =>
    cases otherShows with
    | plain => rfl
    | short isContainer => simp [isPlain] at isContainer
    | array | object => cases isPlain
  | short isContainer isCut =>
    cases otherShows with
    | plain isPlain => simp [isPlain] at isContainer
    | short => rfl
    | array _ isFull | object _ isFull => exact (isFull isCut).elim
  | array write isFull _ ih =>
    cases otherShows with
    | plain isPlain => cases isPlain
    | short _ isCut => exact (isFull isCut).elim
    | array otherWrite _ items =>
      have same := List.map_congr_left fun item holds =>
        ih item holds (items item holds)
      rw [same]
  | object write isFull _ _ keyHypothesis valueHypothesis =>
    cases otherShows with
    | plain isPlain => cases isPlain
    | short _ isCut => exact (isFull isCut).elim
    | object otherWrite _ keys values =>
      congr 3
      apply List.map_congr_left
      intro item holds
      rw [keyHypothesis item holds (keys item holds),
        valueHypothesis item holds (values item holds)]

theorem showsOnce_textIn {depth : Nat} (roomy : store.Roomy depth path) (quoted : Bool)
    (value : Value) : store.ShowsOnce path quoted value (store.textIn depth path quoted value) := by
  induction depth generalizing path quoted value with
  | zero => exact (Roomy.not_zero roomy).elim
  | succ depth ih =>
    have cut {value : Value} {text : String} {write : List Value → String}
        (isContainer : value.isContainer = true) (isCut : value.cutShort = text)
        (shows : value ∉ path → store.ShowsOnce path quoted value (write (value :: path))) :
        store.ShowsOnce path quoted value (container path value text write) := by
      unfold container
      split
      · rename_i isThere
        exact isCut ▸ .short isContainer (List.contains_iff_mem.mp isThere)
      · rename_i isNew
        exact shows (by simpa using isNew)
    cases value with
    | array ref =>
      apply cut rfl rfl
      intro isNew
      refine .array _ isNew fun item holds => ?_
      exact ih (roomy.inside (mem_containers_of_item holds) isNew) true item
    | object ref =>
      apply cut rfl rfl
      intro isNew
      have inside {item : Item} (holds : item ∈ store.object ref) :=
        ih (roomy.inside (mem_containers_of_entry holds) isNew) true
      exact .object _ isNew (fun item holds => inside holds item.key)
        fun item holds => inside holds item.value
    | _ => exact .plain rfl

/-- Where no container lies inside itself none is cut short. -/
theorem Shows.all_of_once (shows : store.ShowsOnce path quoted value text)
    (inside : ∀ outer ∈ path, Relation.TransGen store.Holds outer value)
    (unrolls : store.Unrolls value) : store.ShowsAll path quoted value text := by
  have deeper {path : List Value} {outer inner : Value}
      (inside : ∀ each ∈ path, Relation.TransGen store.Holds each outer)
      (unrolls : store.Unrolls outer) (holds : store.Holds outer inner) :
      (∀ each ∈ outer :: path, Relation.TransGen store.Holds each inner) ∧
        store.Unrolls inner := by
    refine ⟨List.forall_mem_cons.mpr ⟨.single holds, ?_⟩, ?_⟩
    · exact fun each mem => (inside each mem).tail holds
    · exact fun last reaches => unrolls last (.head holds reaches)
  induction shows with
  | plain isPlain => exact .plain isPlain
  | short _ isThere => exact (unrolls _ .refl (inside _ isThere)).elim
  | array write _ _ ih =>
    refine .array write id fun item holds => ?_
    obtain ⟨itemInside, itemUnrolls⟩ := deeper inside unrolls holds
    exact ih item holds itemInside itemUnrolls
  | object write _ _ _ keyHypothesis valueHypothesis =>
    refine .object write id (fun item holds => ?_) fun item holds => ?_
    · obtain ⟨keyInside, keyUnrolls⟩ := deeper inside unrolls ⟨item, holds, .inl rfl⟩
      exact keyHypothesis item holds keyInside keyUnrolls
    · obtain ⟨valueInside, valueUnrolls⟩ := deeper inside unrolls ⟨item, holds, .inr rfl⟩
      exact valueHypothesis item holds valueInside valueUnrolls

/-- Prints with a set of the containers in progress; nothing if it is not deep enough. -/
abbrev Printing (α : Type) := StateT (Finset Value) Option α

/-- Print a container that is not in progress, which it is meanwhile. -/
def printContainer (value : Value) (write : Printing String) : Printing String := do
  if value ∈ (← get) then
    return value.cutShort
  modify (insert value)
  let text ← write
  modify (·.erase value)
  return text

/-- Print a value, at most `depth` containers deep. -/
def print (store : Store) : (depth : Nat) → (quoted : Bool) → Value → Printing String
  | 0, _, .array _ | 0, _, .object _ => failure
  | depth + 1, _, .array ref =>
    printContainer (.array ref) do
      let texts ← (store.items ref).toList.mapM (print store depth true)
      return "[" ++ commaSeparated texts ++ "]"
  | depth + 1, _, .object ref =>
    printContainer (.object ref) do
      let texts ← (store.object ref).mapM fun item => do
        let key ← print store depth true item.key
        let value ← print store depth true item.value
        return key ++ ": " ++ value
      return "(" ++ commaSeparated texts ++ ")"
  | _, quoted, value => return store.textIn 0 [] quoted value

theorem bind_of_some {printing : Printing α} {next : α → Printing β}
    {seen after : Finset Value} {result : α} (printed : printing seen = some (result, after)) :
    (printing >>= next) seen = next result after := by
  simp only [bind, StateT.bind, printed, Option.bind]

theorem printContainer_run (value : Value) (write : Printing String) (seen : Finset Value) :
    printContainer value write seen =
      if value ∈ seen then some (value.cutShort, seen)
      else (write (insert value seen)).map fun printed => (printed.1, printed.2.erase value) := by
  have looked : (get : Printing (Finset Value)) seen = some (seen, seen) := rfl
  unfold printContainer
  rw [bind_of_some looked]
  by_cases isThere : value ∈ seen
  · rw [if_pos isThere, if_pos isThere]
    rfl
  · rw [if_neg isThere, if_neg isThere, Option.map_eq_bind]
    rfl

/-- The containers in progress are the same before and after. -/
def Restores (printing : Printing α) : Prop :=
  ∀ seen result after, printing seen = some (result, after) → after = seen

namespace Restores

variable {α β : Type} {printing : Printing α}

theorem pure (result : α) : Restores (Pure.pure result) := by
  rintro seen _ _ ⟨⟩
  rfl

theorem bind {next : α → Printing β} (restores : Restores printing)
    (nextRestores : ∀ result, Restores (next result)) : Restores (printing >>= next) := by
  intro seen result after printed
  obtain ⟨⟨first, middle⟩, isFirst, isRest⟩ := Option.bind_eq_some_iff.mp printed
  rw [nextRestores first middle result after isRest, restores seen first middle isFirst]

theorem mapM {print : α → Printing β} (restores : ∀ item, Restores (print item))
    (items : List α) :
    Restores (items.mapM print) := by
  induction items with
  | nil => exact pure []
  | cons item rest ih =>
    rw [List.mapM_cons]
    exact (restores item).bind fun _ => ih.bind fun _ => pure _

theorem printContainer {value : Value} {write : Printing String} (restores : Restores write) :
    Restores (printContainer value write) := by
  intro seen text after printed
  rw [printContainer_run] at printed
  split at printed
  · cases printed
    rfl
  · rename_i isNew
    obtain ⟨⟨_, middle⟩, written, same⟩ := Option.map_eq_some_iff.mp printed
    cases same
    rw [restores _ _ _ written, Finset.erase_insert isNew]

end Restores

theorem print_restores (depth : Nat) (quoted : Bool) (value : Value) :
    Restores (store.print depth quoted value) := by
  induction depth generalizing quoted value with
  | zero =>
    cases value with
    | array | object => rintro seen _ _ ⟨⟩
    | _ => exact .pure _
  | succ depth ih =>
    have inside := fun item => ih true item
    cases value with
    | array ref => exact ((Restores.mapM inside _).bind fun _ => .pure _).printContainer
    | object ref =>
      apply Restores.printContainer
      refine (Restores.mapM (fun item => ?_) _).bind fun _ => .pure _
      exact (inside item.key).bind fun _ => (inside item.value).bind fun _ => .pure _
    | _ => exact .pure _

theorem mapM_eq {print : α → Printing String} {write : α → String} {seen : Finset Value}
    {items : List α} (each : ∀ item ∈ items, print item seen = some (write item, seen)) :
    items.mapM print seen = some (items.map write, seen) := by
  induction items with
  | nil => rfl
  | cons item rest ih =>
    obtain ⟨first, later⟩ := List.forall_mem_cons.mp each
    rw [List.mapM_cons, bind_of_some first, bind_of_some (ih later)]
    rfl

theorem printContainer_eq {write : Printing String} {text : String}
    {otherWrite : List Value → String} (isCut : value.cutShort = text)
    (written : value ∉ path →
      write (value :: path).toFinset =
        some (otherWrite (value :: path), (value :: path).toFinset)) :
    printContainer value write path.toFinset =
      some (container path value text otherWrite, path.toFinset) := by
  rw [printContainer_run]
  unfold container
  by_cases isThere : value ∈ path
  · simp [isThere, isCut]
  · have isNew : value ∉ path.toFinset := by simpa using isThere
    have printed := written isThere
    rw [List.toFinset_cons] at printed
    simp [isThere, printed]

/-- Printing with one set for all containers in progress prints the text and restores the set. -/
theorem print_eq {depth : Nat} (roomy : store.Roomy depth path) (quoted : Bool) (value : Value) :
    store.print depth quoted value path.toFinset =
      some (store.textIn depth path quoted value, path.toFinset) := by
  induction depth generalizing path quoted value with
  | zero => exact (Roomy.not_zero roomy).elim
  | succ depth ih =>
    cases value with
    | array ref =>
      apply printContainer_eq rfl
      intro isNew
      exact bind_of_some <| mapM_eq fun item holds =>
        ih (roomy.inside (mem_containers_of_item holds) isNew) true item
    | object ref =>
      apply printContainer_eq rfl
      intro isNew
      refine bind_of_some <| mapM_eq fun item holds => ?_
      have inside := ih (roomy.inside (mem_containers_of_entry holds) isNew) true
      rw [bind_of_some (inside item.key), bind_of_some (inside item.value)]
      rfl
    | _ => rfl

/--
Every value has exactly one text, whatever its containers hold, with a container
cut short exactly if it is being printed on the path to where it occurs.  Printing
with one set of the containers in progress ends with this text and leaves the set
as it was, and so does every call inside it.  If no container that is reached lies
inside itself, the text is what going through everything gives.
-/
theorem prints_any_heap (store : Store) (quoted : Bool) (value : Value) :
    (∀ text, store.ShowsOnce [] quoted value text ↔ text = store.text quoted value) ∧
      (∀ depth,
        store.containerCount < depth →
        store.print depth quoted value ∅ = some (store.text quoted value, ∅)) ∧
      (∀ depth, Restores (store.print depth quoted value)) ∧
      (store.Unrolls value →
        ∀ text, store.ShowsAll [] quoted value text ↔ text = store.text quoted value) := by
  have once : store.ShowsOnce [] quoted value (store.text quoted value) :=
    showsOnce_textIn (.outermost (Nat.lt_succ_self _)) quoted value
  refine ⟨?_, ?_, fun depth => print_restores depth quoted value, ?_⟩
  · exact fun text => ⟨fun other => other.unique once, fun same => same ▸ once⟩
  · intro depth enough
    have printed := print_eq (.outermost enough) quoted value
    obtain ⟨more, rfl⟩ := Nat.exists_eq_add_of_lt enough
    rw [Nat.add_right_comm] at printed ⊢
    rwa [textIn_add (Nat.lt_succ_self _)] at printed
  · intro unrolls text
    have all := once.all_of_once (by simp) unrolls
    exact ⟨fun other => other.unique all, fun same => same ▸ all⟩

/-- An array that holds another one twice prints it twice. -/
theorem prints_any_heap_of_shared_item :
    let store : Store := { arrays := #[#[.array ⟨1⟩, .array ⟨1⟩], #[]] }
    store.Unrolls (.array ⟨0⟩) ∧ store.ShowsAll [] false (.array ⟨0⟩) "[[], []]" := by
  intro store
  have holds {outer inner : Value} (isHeld : store.Holds outer inner) :
      outer = .array ⟨0⟩ ∧ inner = .array ⟨1⟩ := by
    cases outer with
    | array ref =>
      obtain ⟨_ | _ | index⟩ := ref
      · exact ⟨rfl, by simpa [Holds, items, store] using isHeld⟩
      · simp [Holds, items, store] at isHeld
      · simp [Holds, items, store] at isHeld
    | object ref => simp [Holds, Store.object, store] at isHeld
    | _ => cases isHeld
  have unrolls : store.Unrolls (.array ⟨0⟩) := by
    intro inner _ cycle
    obtain ⟨next, first, -⟩ := Relation.TransGen.head'_iff.mp cycle
    obtain ⟨last, -, again⟩ := Relation.TransGen.tail'_iff.mp cycle
    have starts := (holds first).1
    have ends := (holds again).2
    cases starts.symm.trans ends
  obtain ⟨-, -, -, all⟩ := prints_any_heap store false (.array ⟨0⟩)
  exact ⟨unrolls, (all unrolls _).mpr (by decide +kernel)⟩

/-- An array that holds itself, under itself as a key. -/
example :
    let store : Store :=
      { arrays := #[#[.object ⟨0⟩]], objects := #[[⟨.array ⟨0⟩, .object ⟨0⟩⟩]] }
    store.text false (.array ⟨0⟩) = "[([...]: (...))]" := by
  decide +kernel

end Store

end ArrowScript

import Mathlib.Data.Finset.Card
import ArrowScript.Proofs.Store.Edit

namespace ArrowScript

/-!
# Objects as maps

An object is a map whose entries are filed under labels, and labels tell keys
apart in the way scripts tell values apart.  The class of a key names all the keys
that are equal to it at once.

Whatever is set on a new object, each class that was set has one entry, in the
order in which the classes came up, and the entry is the one that was set last.
-/

/-- The number that is not a number. -/
def Value.isNaN : Value → Bool
  | .number value => Number.isNaN value
  | _ => false

/-- A value that objects take as a key and scripts see as equal to itself. -/
def Value.IsKey (value : Value) : Prop :=
  value ≠ .null ∧ value.isNaN = false

/-- The keys that are equal to one key: their kind, and what they have in common. -/
inductive KeyClass
  | null
  | truth (value : Bool)
  | quantity (rank : Int)
  | word (text : String)
  | reference (region : Region) (index : Nat)
deriving DecidableEq

/-- The class of a key.  Numbers are told apart by quantity, references by where they point. -/
def Value.keyClass : Value → KeyClass
  | .null => .null
  | .bool value => .truth value
  | .number value => .quantity (Number.rank value)
  | .text value => .word value
  | .array ref => .reference .array ref.index
  | .object ref => .reference .object ref.index
  | .function ref => .reference .function ref.index
  | .group ref => .reference .group ref.index
  | .integer ref => .reference .integer ref.index

namespace Value

variable {left right : Value}

theorem same_self (isNumber : left.isNaN = false) : left.same left = true := by
  cases left <;> simp_all [same, isNaN, Number.same]

/-- Values are equal exactly when they are of one class. -/
theorem keyClass_eq_iff
    (leftIsNumber : left.isNaN = false)
    (rightIsNumber : right.isNaN = false) :
    left.keyClass = right.keyClass ↔ left.same right = true := by
  cases left <;> cases right <;> simp_all [keyClass, same, isNaN, Number.same, Ref.ext_iff]

/-- Equality is an equivalence of the values that are not NaN. -/
theorem same_equivalence : Equivalence fun left right : { value : Value // value.isNaN = false } =>
      left.1.same right.1 = true where
  refl value := same_self value.2
  symm {first second} same := by rwa [same_comm]
  trans := same_trans

end Value

namespace Object

variable {object history : Object} {key value : Value}

/-- The keyClasses of the keys of an object, in order. -/
def keyClasses (object : Object) : List KeyClass :=
  object.map fun item => item.key.keyClass

theorem find?_set (object : Object) (key value other : Value) :
    (object.set key value).find? (·.key.same other) =
      if key.same other then some ⟨key, value⟩ else object.find? (·.key.same other) := by
  induction object with
  | nil => by_cases isOther : key.same other <;> simp [set, isOther]
  | cons item rest ih =>
    by_cases isKey : item.key.same key
    · have alike : item.key.same other = key.same other := Value.same_congr isKey other
      by_cases isOther : key.same other <;> simp [set, isKey, alike, isOther]
    · by_cases isOther : item.key.same other
      · -- the key is not that of the first entry, so it is not the other one
        have differs : key.same other = false := by
          apply Bool.eq_false_iff.mpr
          intro same
          rw [Value.same_comm] at same
          exact isKey (Value.same_trans isOther same)
        simp [set, isKey, isOther, differs]
      · simp [set, isKey, isOther, ih]

/-- Two keys have one entry exactly when they are equal. -/
theorem get?_set_eq_some_iff {other : Value} :
    (∀ (object : Object) (value : Value), (object.set key value).get? other = some value) ↔
      key.same other = true := by
  constructor
  · intro found
    have alone := found [] .null
    by_contra differs
    simp [get?, find?_set, differs] at alone
  · intro same object value
    simp [get?, find?_set, same]

theorem mem_set {item : Item} (mem : item ∈ object.set key value) :
    item = ⟨key, value⟩ ∨ item ∈ object := by
  induction object with
  | nil => exact .inl (List.mem_singleton.mp mem)
  | cons head rest ih =>
    unfold set at mem
    split at mem
    · exact (List.mem_cons.mp mem).imp id (List.mem_cons_of_mem head)
    · rcases List.mem_cons.mp mem with rfl | later
      · exact .inr List.mem_cons_self
      · exact (ih later).imp id (List.mem_cons_of_mem head)

theorem keyClasses_set (value : Value) (isKey : key.isNaN = false)
    (areKeys : ∀ item ∈ object, item.key.isNaN = false) : (object.set key value).keyClasses =
      if key.keyClass ∈ object.keyClasses then object.keyClasses
        else object.keyClasses ++ [key.keyClass] := by
  induction object with
  | nil => simp [set, keyClasses]
  | cons item rest ih =>
    obtain ⟨first, later⟩ := List.forall_mem_cons.mp areKeys
    have alike := Value.keyClass_eq_iff first isKey
    by_cases same : item.key.same key
    · simp [set, same, keyClasses, alike.mpr same]
    · have differs : key.keyClass ≠ item.key.keyClass :=
        fun isClass => same (alike.mp isClass.symm)
      have laterClasses := ih later
      have setClasses : (set key value (item :: rest)).keyClasses =
          item.key.keyClass :: (set key value rest).keyClasses := by
        rw [set, Value.label_same_label, if_neg same]
        rfl
      have headClasses : keyClasses (item :: rest) = item.key.keyClass :: keyClasses rest := rfl
      rw [setClasses, headClasses, laterClasses]
      by_cases known : key.keyClass ∈ keyClasses rest <;> simp [known, differs]

theorem find?_of_distinct {item : Item} (distinct : object.keyClasses.Nodup)
    (areKeys : ∀ each ∈ object, each.key.isNaN = false) (mem : item ∈ object) :
    object.find? (·.key.same item.key) = some item := by
  induction object with
  | nil => cases mem
  | cons head rest ih =>
    obtain ⟨unlike, laterDistinct⟩ := List.nodup_cons.mp distinct
    obtain ⟨first, later⟩ := List.forall_mem_cons.mp areKeys
    rcases List.mem_cons.mp mem with rfl | inRest
    · simp [Value.same_self first]
    · have differs : ¬ head.key.same item.key := by
        intro same
        have isClass := (Value.keyClass_eq_iff first (later item inRest)).mpr same
        exact unlike (List.mem_map.mpr ⟨item, inRest, isClass.symm⟩)
      rw [List.find?_cons_of_neg (by simpa using differs)]
      exact ih laterDistinct later inRest

theorem setAll_append (object history : Object) (item : Item) :
    object.setAll (history ++ [item]) = (object.setAll history).set item.key item.value := by
  simp [setAll]

theorem find?_setAll (history : Object) (key : Value) :
    (setAll [] history).find? (·.key.same key) = history.reverse.find? (·.key.same key) := by
  induction history using List.reverseRecOn with
  | nil => rfl
  | append_singleton history item ih =>
    rw [setAll_append, find?_set, List.reverse_append, ih]
    by_cases same : item.key.same key <;> simp [same]

theorem contains_setAll (history : Object) (key : Value) :
    (setAll [] history).contains key = true ↔ ∃ item ∈ history, item.key.same key = true := by
  simp only [contains, Value.label_same_label]
  rw [← List.isSome_find?, find?_setAll, List.isSome_find?, List.any_eq_true]
  simp

theorem mem_of_mem_setAll {item : Item} (mem : item ∈ setAll [] history) : item ∈ history := by
  induction history using List.reverseRecOn with
  | nil => exact mem
  | append_singleton history last ih =>
    rw [setAll_append] at mem
    rcases mem_set mem with rfl | earlier
    · exact List.mem_concat_self
    · exact List.mem_append_left _ (ih earlier)

section

variable (areKeys : ∀ item ∈ history, item.key.isNaN = false)

include areKeys

/-- Every class has one entry, in the order in which the classes came up. -/
theorem keyClasses_setAll :
    (setAll [] history).keyClasses = history.keyClasses.eraseDups ∧
      (setAll [] history).keyClasses.Nodup := by
  induction history using List.reverseRecOn with
  | nil => simp [setAll, keyClasses]
  | append_singleton history item ih =>
    obtain ⟨earlier, last⟩ := List.forall_mem_append.mp areKeys
    have isKey : item.key.isNaN = false := last item (List.mem_singleton_self item)
    obtain ⟨sameClasses, distinct⟩ := ih earlier
    have allClasses : keyClasses (history ++ [item]) = keyClasses history ++
        [item.key.keyClass] := by
      simp [keyClasses]
    have lastClasses :=
      keyClasses_set item.value isKey fun each mem =>
        earlier each (mem_of_mem_setAll mem)
    rw [setAll_append, lastClasses, allClasses, List.eraseDups_append, ← sameClasses]
    by_cases known : item.key.keyClass ∈ (setAll [] history).keyClasses
    · have wasSet : item.key.keyClass ∈ keyClasses history := by
        rwa [sameClasses, List.mem_eraseDups] at known
      simp [known, distinct, List.removeAll, wasSet]
    · have isNew : item.key.keyClass ∉ keyClasses history := by
        rwa [sameClasses, List.mem_eraseDups] at known
      refine ⟨by simp [known, List.removeAll, isNew, List.eraseDups_cons], ?_⟩
      rw [if_neg known]
      exact distinct.append (List.nodup_singleton _) (by simpa using known)

theorem find?_reverse_of_mem_setAll {item : Item} (mem : item ∈ setAll [] history) :
    history.reverse.find? (·.key.same item.key) = some item := by
  rw [← find?_setAll]
  apply find?_of_distinct (keyClasses_setAll areKeys).2 _ mem
  exact fun each isEntry => areKeys each (mem_of_mem_setAll isEntry)

end

/--
An object is a map that keeps the order in which its keys came up.  Equality of
scripts is an equivalence of all values but NaN.  Two keys have one entry exactly
when they are equal: the labels their entries are filed under agree exactly then,
and what is set for one of them is found for the other.

Whatever was set on a new object, it has the keys that were set and the value that
was set last for each.  It has one entry for each class of equal keys, in the order
in which the classes came up, and each entry is the one that was set last for its
key.
-/
theorem map_in_order_of_first_insertion :
    (Equivalence fun left right : { value : Value // value.isNaN = false } =>
        left.1.same right.1 = true) ∧
      (∀ key other : Value,
        key.IsKey →
        other.IsKey →
        key.label.same other.label = key.same other ∧
          ((∀ (object : Object) (value : Value),
            (object.set key value).get? other = some value) ↔ key.same other = true) ∧
          (key.keyClass = other.keyClass ↔ key.same other = true)) ∧
      ∀ history : Object,
        (∀ item ∈ history, item.key.IsKey) →
        (∀ key : Value,
          key.IsKey →
          ((setAll [] history).contains key = true ↔
              ∃ item ∈ history, item.key.same key = true) ∧
            (setAll [] history).get? key =
              (history.reverse.find? (·.key.same key)).map Item.value) ∧
          (setAll [] history).length = history.keyClasses.toFinset.card ∧
          (setAll [] history).keyClasses = history.keyClasses.eraseDups ∧
          ∀ item ∈ setAll [] history,
            history.reverse.find? (·.key.same item.key) = some item := by
  refine ⟨Value.same_equivalence, ?_, ?_⟩
  · intro key other isKey isOther
    exact ⟨Value.label_same_label key other, get?_set_eq_some_iff,
      Value.keyClass_eq_iff isKey.2 isOther.2⟩
  intro history areKeys
  have notNaN : ∀ item ∈ history, item.key.isNaN = false := fun item member =>
    (areKeys item member).2
  obtain ⟨inOrder, distinct⟩ := keyClasses_setAll notNaN
  refine ⟨?_, ?_, inOrder, fun item => find?_reverse_of_mem_setAll notNaN⟩
  · intro key _
    exact ⟨contains_setAll history key, by
      simp only [get?, Value.label_same_label, find?_setAll]⟩
  · have classes : (setAll [] history).keyClasses.toFinset = history.keyClasses.toFinset := by
      ext keyClass
      rw [inOrder, List.mem_toFinset, List.mem_toFinset, List.mem_eraseDups]
    rw [← classes, List.toFinset_card_of_nodup distinct, keyClasses, List.length_map]

/-- Keys of several kinds, one set twice; the zeros are one key, and one is not the boolean. -/
theorem map_in_order_of_first_insertion_of_mixed_keys :
    let history : Object :=
      [⟨.bool true, .null⟩, ⟨.number 0, .text "a"⟩, ⟨.number 1, .null⟩,
        ⟨.array ⟨0⟩, .null⟩,
        ⟨.text "1", .null⟩, ⟨.number (-0), .text "b"⟩]
    (∀ item ∈ history, item.key.IsKey) ∧
      (setAll [] history).length = 5 ∧
      (setAll [] history).get? (.number 0) = some (.text "b") := by
  intro history
  have areKeys : ∀ item ∈ history, item.key.IsKey := by
    unfold history
    simp only [List.forall_mem_cons, Value.IsKey]
    decide +kernel
  obtain ⟨-, -, laws⟩ := map_in_order_of_first_insertion
  obtain ⟨lookups, count, -, -⟩ := laws history areKeys
  refine ⟨areKeys, ?_, ?_⟩
  · rw [count]
    decide +kernel
  · have isKey : (Value.number 0).IsKey := by
      unfold Value.IsKey
      decide +kernel
    rw [(lookups _ isKey).2]
    decide +kernel

end Object

end ArrowScript

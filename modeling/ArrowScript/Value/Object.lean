import ArrowScript.Value.Basic

namespace ArrowScript

/-!
# Objects

An object maps keys to values and lists its entries in the order in which their
keys were first set.  Entries are filed under the labels of their keys.
-/

/-- What an entry is filed under: the kind of its key, and what is compared within this kind. -/
inductive Label
  | boolean (value : Bool)
  | number (value : Float)
  | string (value : String)
  /-- Any other value is filed under its identity; null has the one that points nowhere. -/
  | reference (identity : Option (Region × Nat))

/-- Labels agree when they are of one kind and what they carry is equal. -/
def Label.same : Label → Label → Bool
  | .boolean left, .boolean right => left == right
  | .number left, .number right => Number.same left right
  | .string left, .string right => left == right
  | .reference left, .reference right => left == right
  | _, _ => false

/-- The label of a key. -/
def Value.label : Value → Label
  | .bool value => .boolean value
  | .number value => .number value
  | .text value => .string value
  | .null => .reference none
  | .array ref => .reference (some (.array, ref.index))
  | .object ref => .reference (some (.object, ref.index))
  | .function ref => .reference (some (.function, ref.index))
  | .group ref => .reference (some (.group, ref.index))
  | .integer ref => .reference (some (.integer, ref.index))

/-- References to one region have one identity exactly when they are equal. -/
theorem Ref.identity_beq {region : Region} (left right : Ref region) :
    (some (region, left.index) == some (region, right.index)) = (left == right) := by
  rw [Bool.eq_iff_iff]
  simp [Ref.ext_iff]

/-- Labels and scripts tell the same values apart. -/
@[simp] theorem Value.label_same_label (left right : Value) :
    left.label.same right.label = left.same right := by
  cases left <;> cases right <;> first | rfl | exact Ref.identity_beq _ _

/-- An entry of an object. -/
structure Item where
  key : Value
  value : Value
deriving DecidableEq, Inhabited

/-- Entries in the order in which their keys came up. -/
abbrev Object := List Item

namespace Object

/-- The value that is filed under the label of a key. -/
def get? (object : Object) (key : Value) : Option Value :=
  (object.find? fun item => item.key.label.same key.label).map Item.value

/-- Whether an entry is filed under the label of a key. -/
def contains (object : Object) (key : Value) : Bool :=
  object.any fun item => item.key.label.same key.label

/-- Set the value of a key: an entry that is there is replaced in place, a new one comes last. -/
def set (key value : Value) : Object → Object
  | [] => [⟨key, value⟩]
  | item :: rest =>
      if item.key.label.same key.label then ⟨key, value⟩ :: rest
      else item :: set key value rest

/-- Set the keys of some entries one after the other. -/
def setAll (object entries : Object) : Object :=
  entries.foldl (fun object item => set item.key item.value object) object

end Object

end ArrowScript

import ArrowScript.Proofs.Store.Relocation
import Mathlib.Data.List.Forall2
import Mathlib.Data.List.Perm.Subperm

namespace ArrowScript

/-!
# Texts on top of another store

The text of a value goes at most one container deeper than there are containers:
a container that is met again inside itself is cut short.  More depth therefore
changes no text, and neither does it matter where in a store containers lie, as
long as different ones stay different.  So a value has the same text on top of
another store.
-/

open scoped List

/-- Whether a value is an array or an object. -/
def Value.isContainer : Value → Bool
  | .array _ | .object _ => true
  | _ => false

namespace Store

variable {store : Store} {ground : Ground}

def containers (store : Store) : List Value :=
  (List.range store.arrays.size).map (fun index => .array ⟨index⟩) ++
    (List.range store.objects.size).map fun index => .object ⟨index⟩

theorem length_containers (store : Store) : store.containers.length = store.containerCount := by
  simp [containers, containerCount]

variable {around : List Value} {value : Value} {depth : Nat}

/-- Containers that lie inside one another are no more than all containers. -/
theorem length_le_containerCount (different : around.Nodup) (held : around ⊆ store.containers) :
    around.length ≤ store.containerCount := by
  rw [← store.length_containers]
  exact (List.subperm_of_subset different held).length_le

theorem container_congr {cut : String} {write other : List Value → String}
    (same : value ∉ around → write (value :: around) = other (value :: around)) :
    container around value cut write = container around value cut other := by
  unfold container
  split
  · rfl
  · rename_i absent
    exact same (by simpa using absent)

theorem mem_containers_of_item {ref : Ref .array} (holds : value ∈ (store.items ref).toList) :
    .array ref ∈ store.containers := by
  have existing : ref.index < store.arrays.size := by
    apply Classical.byContradiction
    intro absent
    simp [items, absent] at holds
  exact List.mem_append_left _ (List.mem_map.mpr ⟨ref.index, List.mem_range.mpr existing, rfl⟩)

theorem mem_containers_of_entry {ref : Ref .object} {item : Item}
    (holds : item ∈ store.object ref) : .object ref ∈ store.containers := by
  have existing : ref.index < store.objects.size := by
    apply Classical.byContradiction
    intro absent
    simp [object, absent] at holds
  exact List.mem_append_right _ (List.mem_map.mpr ⟨ref.index, List.mem_range.mpr existing, rfl⟩)

/-- Containers inside one another, with more depth left than there are containers besides. -/
structure Roomy (store : Store) (depth : Nat) (around : List Value) : Prop where
  different : around.Nodup
  held : around ⊆ store.containers
  enough : store.containerCount < depth + around.length

theorem Roomy.outermost (enough : store.containerCount < depth) : store.Roomy depth [] :=
  ⟨List.nodup_nil, List.nil_subset _, enough⟩

theorem Roomy.not_zero : ¬ store.Roomy 0 around := by
  rintro ⟨different, held, enough⟩
  have bounded := length_le_containerCount different held
  omega

theorem Roomy.inside (roomy : store.Roomy (depth + 1) around)
    (isHeld : value ∈ store.containers) (isNew : value ∉ around) :
    store.Roomy depth (value :: around) where
  different := List.nodup_cons.mpr ⟨isNew, roomy.different⟩
  held := List.cons_subset.mpr ⟨isHeld, roomy.held⟩
  enough := by
    have enough := roomy.enough
    simp only [List.length_cons]
    omega

/-- One more level of depth changes nothing where there is room. -/
theorem textIn_succ (roomy : store.Roomy depth around) (quoted : Bool) (value : Value) :
    store.textIn (depth + 1) around quoted value = store.textIn depth around quoted value := by
  induction depth generalizing around quoted value with
  | zero => exact (Roomy.not_zero roomy).elim
  | succ depth ih =>
    cases value with
    | array ref =>
      apply container_congr
      intro isNew
      have items :
          (store.items ref).toList.map (store.textIn (depth + 1) (.array ref :: around) true) =
            (store.items ref).toList.map (store.textIn depth (.array ref :: around) true) :=
        List.map_congr_left fun item holds =>
          ih (roomy.inside (mem_containers_of_item holds) isNew) true item
      rw [items]
    | object ref =>
      apply container_congr
      intro isNew
      congr 3
      apply List.map_congr_left
      intro item holds
      have inside := ih (roomy.inside (mem_containers_of_entry holds) isNew) true
      rw [inside, inside]
    | _ => rfl

theorem textIn_add (enough : store.containerCount < depth) (more : Nat)
    (quoted : Bool) (value : Value) :
    store.textIn (depth + more) [] quoted value = store.textIn depth [] quoted value := by
  induction more with
  | zero => rfl
  | succ more ih =>
    rw [← ih, ← Nat.add_assoc]
    exact textIn_succ (.outermost (by omega)) quoted value

theorem textIn_plain (isPlain : value.isContainer = false) (depth : Nat) (around : List Value)
    (quoted : Bool) : store.textIn depth around quoted value = store.textIn 0 [] quoted value := by
  cases value with
  | array | object => cases isPlain
  | _ => cases depth <;> rfl

/-- A relation between the values of two stores, one to one, under which texts do not differ. -/
structure Portrays (store other : Store) (alike : Value → Value → Prop) : Prop where
  unique : ∀ {first second image otherImage}, alike first image → alike second otherImage →
    (first = second ↔ image = otherImage)
  plain : ∀ {value image}, alike value image → value.isContainer = false →
    image.isContainer = false ∧
      ∀ quoted, other.textIn 0 [] quoted image = store.textIn 0 [] quoted value
  array : ∀ {ref image}, alike (.array ref) image → ∃ imageRef, image = .array imageRef ∧
    List.Forall₂ alike (store.items ref).toList (other.items imageRef).toList
  object : ∀ {ref image}, alike (.object ref) image → ∃ imageRef, image = .object imageRef ∧
    List.Forall₂ (fun item imageItem =>
        alike item.key imageItem.key ∧ alike item.value imageItem.value)
      (store.object ref) (other.object imageRef)

namespace Portrays

variable {other : Store} {alike : Value → Value → Prop} {image : Value} {images : List Value}

variable (portrays : store.Portrays other alike) (isAlike : alike value image)

include portrays isAlike

theorem contains_eq (arounds : List.Forall₂ alike around images) :
    images.contains image = around.contains value := by
  induction arounds with
  | nil => rfl
  | @cons head headImage _ _ headAlike _ ih =>
    have sameHead : (image == headImage) = (value == head) := by
      rw [Bool.eq_iff_iff, beq_iff_eq, beq_iff_eq]
      exact (portrays.unique isAlike headAlike).symm
    rw [List.contains_cons, List.contains_cons, sameHead, ih]

theorem container_eq {cut : String} {write otherWrite : List Value → String}
    (arounds : List.Forall₂ alike around images)
    (same : otherWrite (image :: images) = write (value :: around)) :
    container images image cut otherWrite = container around value cut write := by
  unfold container
  rw [portrays.contains_eq isAlike arounds, same]

theorem textIn_eq_of_plain {quoted : Bool} (isPlain : value.isContainer = false) :
    other.textIn depth images quoted image = store.textIn depth around quoted value := by
  obtain ⟨imageIsPlain, same⟩ := portrays.plain isAlike isPlain
  rw [textIn_plain imageIsPlain, same, textIn_plain isPlain depth around]

theorem textIn_eq (arounds : List.Forall₂ alike around images) (depth : Nat) (quoted : Bool) :
    other.textIn depth images quoted image = store.textIn depth around quoted value := by
  have whole {α : Type} {relation : α → α → Prop} {left right : List α}
      {write otherWrite : α → String} (lists : List.Forall₂ relation left right)
      (same : ∀ {item imageItem}, relation item imageItem → otherWrite imageItem = write item) :
      right.map otherWrite = left.map write := by
    induction lists with
    | nil => rfl
    | cons first _ ih => simp [same first, ih]
  induction depth generalizing around images value image quoted with
  | zero =>
    cases value with
    | array ref =>
      obtain ⟨imageRef, rfl, -⟩ := portrays.array isAlike
      rfl
    | object ref =>
      obtain ⟨imageRef, rfl, -⟩ := portrays.object isAlike
      rfl
    | _ => exact portrays.textIn_eq_of_plain isAlike rfl
  | succ depth ih =>
    cases value with
    | array ref =>
      obtain ⟨imageRef, rfl, items⟩ := portrays.array isAlike
      apply portrays.container_eq isAlike arounds
      rw [whole items fun itemAlike => ih itemAlike (.cons isAlike arounds) true]
    | object ref =>
      obtain ⟨imageRef, rfl, entries⟩ := portrays.object isAlike
      apply portrays.container_eq isAlike arounds
      have inside {item imageItem : Value} (itemAlike : alike item imageItem) :=
        ih itemAlike (.cons isAlike arounds) true
      rw [whole entries fun itemsAlike => by rw [inside itemsAlike.1, inside itemsAlike.2]]
    | _ => exact portrays.textIn_eq_of_plain isAlike rfl

theorem text_eq (quoted : Bool) : other.text quoted image = store.text quoted value := by
  have deeper := portrays.textIn_eq isAlike .nil
    (store.containerCount + 1 + other.containerCount) quoted
  rw [textIn_add (Nat.lt_succ_self _)] at deeper
  rw [text, text, ← deeper, Nat.add_right_comm, Nat.add_comm store.containerCount,
    Nat.add_right_comm, textIn_add (Nat.lt_succ_self _)]

end Portrays

/-- On top of another store values look as they do alone. -/
theorem portrays_on :
    store.Portrays (store.on ground) fun value image => image = value.on ground where
  unique := by
    rintro first second _ _ rfl rfl
    exact Value.on_inj.symm
  plain := by
    rintro value _ rfl isPlain
    cases value with
    | array | object => cases isPlain
    | _ => simp [Value.isContainer, Value.on, Value.withRef, textIn, groupText, Group.on]
  array := by
    rintro ref _ rfl
    refine ⟨ref.on ground, rfl, ?_⟩
    rw [items_on, Array.toList_map, List.forall₂_map_right_iff]
    exact List.forall₂_same.mpr fun _ _ => rfl
  object := by
    rintro ref _ rfl
    refine ⟨ref.on ground, rfl, ?_⟩
    rw [object_on, Object.on, List.forall₂_map_right_iff]
    exact List.forall₂_same.mpr fun _ _ => ⟨rfl, rfl⟩

@[simp]
theorem text_on (quoted : Bool) (value : Value) :
    (store.on ground).text quoted (value.on ground) = store.text quoted value :=
  portrays_on.text_eq rfl quoted

end Store

end ArrowScript

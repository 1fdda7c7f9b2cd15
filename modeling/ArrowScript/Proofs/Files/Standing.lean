import ArrowScript.Files.Access

namespace ArrowScript

/-!
# Files that stay where they are

Writing a file takes nothing away: whatever stood at a path before still stands
there, as a file or as a directory, perhaps with other bytes.  So every path
text that led to a file leads to one afterwards.
-/

/-- Whether a node is a file. -/
def FileNode.isFile : FileNode → Bool
  | .file .. => true
  | .directory => false

namespace FileTree

/-- Whatever stands in a tree stands in another one too, as a node of the same kind. -/
def StandsIn (tree other : FileTree) : Prop :=
  ∀ path node,
    tree.get? path = some node →
    ∃ found, other.get? path = some found ∧ found.isFile = node.isFile

/-- What following a path text finds stands there, and at a vacant path nothing does. -/
def Tells (tree : FileTree) : Resolution → Prop
  | .found path (.file identity bytes) => tree.get? path = some (.file identity bytes)
  | .vacant path _ => tree.get? path = none
  | _ => True

theorem tells_walk (tree : FileTree) (directory : Path) (parts : List String) :
    tree.Tells (tree.walk directory parts) := by
  induction parts generalizing directory with
  | nil => trivial
  | cons part rest ih =>
    unfold walk
    split
    · exact ih _
    split
    · exact ih _
    split
    · trivial
    simp only
    split
    · exact ih _
    · split
      · assumption
      · trivial
    · split
      · assumption
      · trivial

theorem tells_resolve (tree : FileTree) (directory : Path) (text : String) :
    tree.Tells (tree.resolve directory text) := by
  unfold resolve
  split
  · trivial
  · exact tells_walk ..

/-- A path text leads to a file, or to a free place for one in a directory that is there. -/
inductive AtFile (path : Path) : Resolution → Prop
  | found (identity : Nat) (bytes : List UInt8) : AtFile path (.found path (.file identity bytes))
  | vacant : AtFile path (.vacant path false)

variable {tree other : FileTree} {text : String}

namespace StandsIn

theorem refl (tree : FileTree) : tree.StandsIn tree :=
  fun _ node found => ⟨node, found, rfl⟩

theorem trans {third : FileTree} (first : tree.StandsIn other) (second : other.StandsIn third) :
    tree.StandsIn third := by
  intro path node stands
  obtain ⟨middle, inOther, sameKind⟩ := first path node stands
  obtain ⟨last, inThird, stillSameKind⟩ := second path middle inOther
  exact ⟨last, inThird, stillSameKind.trans sameKind⟩

variable {path : Path}

variable (stands : tree.StandsIn other) {bytes : List UInt8}

include stands

theorem directory (isThere : tree.get? path = some .directory) :
    other.get? path = some .directory := by
  obtain ⟨node, inOther, sameKind⟩ := stands path .directory isThere
  cases node with
  | file identity bytes => cases sameKind
  | directory => exact inOther

theorem file {identity : Nat} (isThere : tree.get? path = some (.file identity bytes)) :
    ∃ otherIdentity otherBytes, other.get? path = some (.file otherIdentity otherBytes) := by
  obtain ⟨node, inOther, sameKind⟩ := stands path _ isThere
  cases node with
  | file otherIdentity otherBytes => exact ⟨otherIdentity, otherBytes, inOther⟩
  | directory => cases sameKind

/-- A path that leads to the place of a file is followed to the file that stands there. -/
theorem walk {parts : List String} {directory : Path} {identity : Nat}
    (isFile : other.get? path = some (.file identity bytes))
    (leads : AtFile path (tree.walk directory parts)) :
    other.walk directory parts = .found path (.file identity bytes) := by
  induction parts generalizing directory with
  | nil => cases leads
  | cons part rest ih =>
    unfold FileTree.walk at leads ⊢
    split at leads
    · rename_i skipped
      rw [if_pos skipped]
      exact ih leads
    rename_i notSkipped
    rw [if_neg notSkipped]
    split at leads
    · rename_i goesUp
      rw [if_pos goesUp]
      exact ih leads
    rename_i notUp
    rw [if_neg notUp]
    split at leads
    · cases leads
    rename_i fits
    rw [if_neg fits]
    simp only at leads ⊢
    split at leads
    · rename_i isDirectory
      rw [stands.directory isDirectory]
      exact ih leads
    · split at leads
      · rename_i isLast
        cases leads
        rw [isFile]
        exact if_pos isLast
      · cases leads
    · split at leads
      · cases isLast : rest.isEmpty with
        | true =>
          rw [isLast] at leads
          cases leads
          rw [isFile]
          rfl
        | false =>
          rw [isLast] at leads
          cases leads
      · cases leads

theorem resolve {directory : Path} {identity : Nat}
    (isFile : other.get? path = some (.file identity bytes))
    (leads : AtFile path (tree.resolve directory text)) :
    other.resolve directory text = .found path (.file identity bytes) := by
  unfold FileTree.resolve at leads ⊢
  split at leads
  · cases leads
  rename_i notEmpty
  rw [if_neg notEmpty]
  exact stands.walk isFile leads

theorem isFile {directory : Path} (leads : tree.isFile directory text = true) :
    other.isFile directory text = true := by
  unfold FileTree.isFile at leads ⊢
  rw [Bool.and_eq_true] at leads ⊢
  refine ⟨leads.1, ?_⟩
  have isFound := leads.2
  have tells := tree.tells_resolve directory text
  split at isFound
  · rename_i path identity bytes led
    rw [led] at tells
    obtain ⟨otherIdentity, otherBytes, inOther⟩ := stands.file tells
    rw [stands.resolve inOther (led ▸ .found identity bytes)]
  · cases isFound

end StandsIn

theorem lookup_map_keys {change : Path × FileNode → Path × FileNode}
    (sameKeys : ∀ entry, (change entry).1 = entry.1) (entries : List (Path × FileNode))
    (path : Path) : (entries.map change).lookup path =
      (entries.lookup path).map fun node => (change (path, node)).2 := by
  induction entries with
  | nil => rfl
  | cons entry rest ih =>
    obtain ⟨key, node⟩ := entry
    have sameKey := sameKeys (key, node)
    rw [List.map_cons, List.lookup_cons, List.lookup_cons, sameKey]
    cases isKey : path == key with
    | true =>
      have isPath := eq_of_beq isKey
      subst isPath
      rfl
    | false => exact ih

theorem standsIn_writeAt (tree : FileTree) (identity offset : Nat) (bytes : List UInt8) :
    tree.StandsIn (tree.writeAt identity offset bytes) := by
  intro path node stands
  unfold get? at stands ⊢
  split at stands
  · rename_i isRoot
    rw [if_pos isRoot]
    exact ⟨node, stands, rfl⟩
  · rename_i notRoot
    rw [if_neg notRoot]
    simp only [writeAt]
    rw [lookup_map_keys, stands]
    · cases node with
      | directory => exact ⟨_, rfl, rfl⟩
      | file candidate old =>
        refine ⟨_, rfl, ?_⟩
        simp only
        split <;> rfl
    · intro entry
      split
      · split <;> rfl
      · rfl

variable {directory path : Path}

theorem get?_set (notRoot : path ≠ []) (node : FileNode) (other : Path) :
    (tree.set path node).get? other = if other = path then some node else tree.get? other := by
  unfold get? set
  by_cases isRoot : other = []
  · rw [isRoot, if_neg notRoot.symm]
    rfl
  have notEmpty : ¬ other.isEmpty = true := by simpa using isRoot
  rw [if_neg notEmpty, if_neg notEmpty]
  by_cases isThere : (tree.entries.lookup path).isSome
  · simp only [isThere, ↓reduceIte]
    rw [lookup_map_keys]
    · by_cases isPath : other = path
      · obtain ⟨old, isOld⟩ := Option.isSome_iff_exists.mp isThere
        simp [isPath, isOld]
      · simp [isPath]
    · intro entry
      split
      · rename_i isPath
        exact (eq_of_beq isPath).symm
      · rfl
  · rw [if_neg isThere, List.lookup_append]
    rw [Option.not_isSome_iff_eq_none] at isThere
    by_cases isPath : other = path
    · simp [isPath, isThere]
    · have noKey : (other == path) = false := beq_false_of_ne isPath
      rw [if_neg isPath, List.lookup_cons, noKey]
      simp

theorem get?_setFile (bytes : List UInt8) (noDirectory : tree.get? path ≠ some .directory) :
    ∃ identity, ∀ other, (tree.setFile path bytes).get? other =
      if other = path then some (.file identity bytes) else tree.get? other := by
  have notRoot : path ≠ [] := by
    rintro rfl
    exact noDirectory rfl
  unfold setFile
  split
  · exact ⟨_, get?_set notRoot _⟩
  · exact ⟨_, get?_set notRoot _⟩

theorem standsIn_setFile (bytes : List UInt8) (noDirectory : tree.get? path ≠ some .directory) :
    tree.StandsIn (tree.setFile path bytes) := by
  obtain ⟨identity, changed⟩ := get?_setFile bytes noDirectory
  intro other node stands
  rw [changed]
  split
  · rename_i isPath
    subst isPath
    cases node with
    | file => exact ⟨_, rfl, rfl⟩
    | directory => exact absurd stands noDirectory
  · exact ⟨node, stands, rfl⟩

theorem AtFile.noDirectory (leads : AtFile path (tree.resolve directory text)) :
    tree.get? path ≠ some .directory := by
  have tells := tree.tells_resolve directory text
  generalize tree.resolve directory text = resolution at leads tells
  intro isDirectory
  cases leads with
  | found => simp [Tells, isDirectory] at tells
  | vacant => simp [Tells, isDirectory] at tells

/-- A text is written exactly where a path text leads to the place of a file. -/
theorem writeText_eq_ok_iff {content : String} {changed : FileTree} :
    tree.writeText directory text content = .ok changed ↔ hasNull text = false ∧
      ∃ path, AtFile path (tree.resolve directory text) ∧
        tree.setFile path (Text.encode content.toList) = changed := by
  unfold writeText
  constructor
  · intro written
    split at written
    · cases written
    rename_i noNull
    refine ⟨Bool.eq_false_iff.mpr noNull, ?_⟩
    split at written
    · rename_i led
      rw [led]
      exact ⟨_, .found _ _, Except.ok.inj written⟩
    · rename_i led
      rw [led]
      exact ⟨_, .vacant, Except.ok.inj written⟩
    · cases written
  · rintro ⟨noNull, path, leads, rfl⟩
    rw [noNull]
    generalize tree.resolve directory text = resolution at leads
    cases leads <;> rfl

theorem standsIn_of_writeText {content : String} {changed : FileTree}
    (written : tree.writeText directory text content = .ok changed) : tree.StandsIn changed := by
  obtain ⟨-, path, leads, rfl⟩ := writeText_eq_ok_iff.mp written
  exact standsIn_setFile _ leads.noDirectory

end FileTree

end ArrowScript

import ArrowScript.Files.Tree

namespace ArrowScript

/-!
# Absolute path texts

An absolute path text starts with one slash or with two and then has the names on
the way to what it stands for.  So what stands at a path has two absolute path
texts, and every path text that leads there is made into one of them.
-/

variable {text : String} {path place : Path} {names : List String} {tree : FileTree}

namespace Path

/-- A part of a path text that is the name of a file or of a directory. -/
structure IsName (part : String) : Prop where
  notEmpty : part ≠ ""
  notHere : part ≠ "."
  notAbove : part ≠ ".."
  noSlash : '/' ∉ part.toList

theorem noSlash_of_mem_parts {part : String} (mem : part ∈ parts text) :
    '/' ∉ part.toList := by
  obtain ⟨piece, isPiece, rfl⟩ := List.mem_map.mp mem
  rw [String.toList_ofList]
  generalize text.toList = characters at isPiece
  clear mem
  induction characters generalizing piece with
  | nil =>
    rw [List.splitOnP_nil, List.mem_singleton] at isPiece
    simp [isPiece]
  | cons first rest ih =>
    rw [List.splitOnP_cons_eq_if_modifyHead] at isPiece
    split at isPiece
    · rcases List.mem_cons.mp isPiece with rfl | later
      · simp
      · exact ih piece later
    · rename_i notSlash
      cases pieces : rest.splitOnP (· == '/') with
      | nil => simp [pieces] at isPiece
      | cons head tail =>
        rw [pieces, List.modifyHead_cons] at isPiece
        rcases List.mem_cons.mp isPiece with rfl | later
        · rw [List.mem_cons, not_or]
          exact ⟨fun isSlash => notSlash (by simp [← isSlash]),
            ih head (pieces ▸ List.mem_cons_self)⟩
        · exact ih piece (pieces ▸ List.mem_cons_of_mem head later)

theorem isName_of_mem_follow {part : String} (noSlash : '/' ∉ part.toList)
    (areNames : ∀ name ∈ path, IsName name) : ∀ name ∈ follow path part, IsName name := by
  unfold follow
  split
  · exact areNames
  rename_i counts
  split
  · exact fun name mem => areNames name (List.dropLast_subset path mem)
  rename_i notAbove
  simp only [Bool.or_eq_true, decide_eq_true_eq, not_or] at counts
  intro name mem
  rcases List.mem_append.mp mem with earlier | isPart
  · exact areNames name earlier
  · rw [List.mem_singleton.mp isPart]
    exact ⟨counts.1, counts.2, notAbove, noSlash⟩

/-- Following parts from a path of names leads to a path of names. -/
theorem isName_of_mem_foldl
    (noSlashes : ∀ part ∈ names, '/' ∉ part.toList)
    (areNames : ∀ name ∈ path, IsName name) :
    ∀ name ∈ names.foldl follow path, IsName name := by
  induction names generalizing path with
  | nil => exact areNames
  | cons part rest ih =>
    obtain ⟨first, later⟩ := List.forall_mem_cons.mp noSlashes
    exact ih later (isName_of_mem_follow first areNames)

theorem isName_of_mem_resolve {name : String} (mem : name ∈ resolve [] text) :
    IsName name := by
  unfold resolve at mem
  rw [ite_self] at mem
  exact isName_of_mem_foldl (fun _ => noSlash_of_mem_parts) (by simp) name mem

/-- Names lead further down. -/
theorem foldl_follow (areNames : ∀ name ∈ names, IsName name) (path : Path) :
    names.foldl follow path = path ++ names := by
  induction names generalizing path with
  | nil => simp
  | cons name rest ih =>
    obtain ⟨first, later⟩ := List.forall_mem_cons.mp areNames
    have followed : follow path name = path ++ [name] := by
      simp [follow, first.notEmpty, first.notHere, first.notAbove]
    rw [List.foldl_cons, followed, ih later, List.append_assoc, List.singleton_append]

/-- The text of a path leads back to the path, also behind another slash. -/
theorem foldl_parts_shown (areNames : ∀ name ∈ path, IsName name) :
    (parts path.shown).foldl follow [] = path ∧
      (parts ("/" ++ path.shown)).foldl follow [] = path := by
  have split : (parts ("/".intercalate path)).foldl follow [] = path := by
    cases path with
    | nil => rfl
    | cons name rest =>
      have pieces : parts ("/".intercalate (name :: rest)) = name :: rest := by
        have noSlashes : ∀ piece ∈ (name :: rest).map String.toList, '/' ∉ piece := by
          intro piece mem
          obtain ⟨each, isName, rfl⟩ := List.mem_map.mp mem
          exact (areNames each isName).noSlash
        have splits : (['/'].intercalate _).splitOnP (· == '/') = _ :=
          List.splitOn_intercalate '/' noSlashes (by simp)
        have slash : "/".toList = ['/'] := by decide
        unfold parts
        rw [String.toList_intercalate, slash, splits]
        simp [Function.comp_def]
      rw [pieces, foldl_follow areNames, List.nil_append]
  have slash (text : String) : (parts ("/" ++ text)).foldl follow [] =
      (parts text).foldl follow [] := by
    have pieces : parts ("/" ++ text) = "" :: parts text := by
      unfold parts
      rw [String.toList_append]
      simp [List.splitOnP_cons_eq_if_modifyHead]
    rw [pieces, List.foldl_cons]
    rfl
  exact ⟨(slash _).trans split, (slash _).trans ((slash _).trans split)⟩

theorem root_of_isAbsolute (starts : isAbsolute text = true) :
    root text = "/" ∨ root text = "//" := by
  have slashed : (text.toList.takeWhile (· == '/')).length ≠ 0 := by
    unfold isAbsolute at starts
    cases characters : text.toList with
    | nil => simp [characters] at starts
    | cons first rest => simp_all
  simp only [root, if_neg slashed]
  split
  · exact .inr rfl
  · exact .inl rfl

end Path

namespace FileTree

/-- The place of the file that a path text leads to. -/
def filePlace? (tree : FileTree) (dir : Path) (text : String) : Option Path :=
  match tree.resolve dir text with
  | .found place (.file ..) => some place
  | _ => none

/-- A path text leads to the place that it names. -/
theorem walk_eq_found {dir : Path} {node : FileNode}
    (found : tree.walk dir names = .found place node) : place = names.foldl Path.follow dir := by
  induction names generalizing dir with
  | nil =>
    cases found
    rfl
  | cons part rest ih =>
    unfold walk at found
    rw [List.foldl_cons]
    unfold Path.follow
    split at found
    · rename_i stays
      rw [if_pos stays]
      exact ih found
    rename_i moves
    rw [if_neg moves]
    split at found
    · rename_i goesUp
      rw [if_pos goesUp]
      exact ih found
    rename_i goesDown
    rw [if_neg goesDown]
    split at found
    · cases found
    simp only at found
    split at found
    · exact ih found
    · split at found
      · rename_i isLast
        cases found
        rw [List.isEmpty_iff.mp isLast]
        rfl
      · cases found
    · split at found <;> cases found

/-- Slashes in front do not change what a text leads to. -/
theorem eq_of_filePlace? {here : Path}
    (isAbsolute : Path.isAbsolute text = true)
    (leads : tree.filePlace? here text = some place)
    (names : (Path.parts text).foldl Path.follow [] = path) : path = place := by
  unfold filePlace? resolve at leads
  rw [if_pos isAbsolute] at leads
  split at leads
  · rename_i found
    cases leads
    split at found
    · cases found
    · rw [walk_eq_found found, names]
  · cases leads

/-- What stands at a place has two absolute path texts: with one slash in front, and with two. -/
theorem absolute?_of_filePlace? {dir here : Path} {name path : String}
    (isPath : Path.absolute? dir name = some path)
    (leads : tree.filePlace? here path = some place) :
    path = place.shown ∨ path = "/" ++ place.shown := by
  obtain ⟨text, isAbsolute, rfl⟩ :
      ∃ text, Path.isAbsolute text = true ∧ Path.normal text = path := by
    unfold Path.absolute? at isPath
    split at isPath
    · rename_i isAbsolute
      exact ⟨name, isAbsolute, Option.some.inj isPath⟩
    split at isPath
    · cases isPath
    · refine ⟨Path.join dir.shown name, ?_, Option.some.inj isPath⟩
      unfold Path.join Path.shown
      split <;> simp [Path.isAbsolute]
  have areNames : ∀ name ∈ Path.resolve [] text, Path.IsName name :=
    fun _ => Path.isName_of_mem_resolve
  obtain ⟨once, twice⟩ := Path.foldl_parts_shown areNames
  unfold Path.normal at leads ⊢
  rcases Path.root_of_isAbsolute isAbsolute with isRoot | isRoot
  · rw [isRoot] at leads ⊢
    rw [eq_of_filePlace? (by simp [Path.isAbsolute]) leads once]
    exact .inl rfl
  · have slashes (rest : String) : "//" ++ rest = "/" ++ ("/" ++ rest) := by
      rw [← String.append_assoc]
      rfl
    rw [isRoot, slashes] at leads ⊢
    rw [eq_of_filePlace? (by simp [Path.isAbsolute]) leads twice]
    exact .inr rfl

end FileTree

end ArrowScript

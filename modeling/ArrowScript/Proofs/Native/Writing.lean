import ArrowScript.Native.Call
import ArrowScript.Proofs.Files.Standing
import ArrowScript.Proofs.Text.Encoding
import ArrowScript.Proofs.Text.Replacement

namespace ArrowScript

/-!
# Writing a file and reading it

A file that is written holds the UTF-8 encoding of its text, and nothing else
changes.  Reading it unifies line ends, which writing does not.
-/

theorem FileTree.readText_of_resolve {tree : FileTree} {dir place : Path} {identity : Nat}
    {path content : String} (noNull : hasNull path = false)
    (leads : tree.resolve dir path = .found place (.file identity (Text.encode content.toList))) :
    tree.readText dir path = .ok (String.ofList (Text.unifyLineEnds content.toList)) := by
  unfold readText readBytes
  rw [noNull, leads]
  simp [Text.decode, Text.decodeFrom_encode, bind, Except.bind, pure, Except.pure]

theorem Native.inspectFiles_bind (look : FileTree → Path → α) (next : α → Action β)
    (machine : Machine) : (inspectFiles look >>= next) machine =
      next (look machine.world.files machine.world.directory) machine :=
  rfl

/--
Writing and then reading a file.  Where a path text leads to a file, or to a free
place in a directory that is there, writing succeeds, changes that file alone and
makes its bytes the UTF-8 encoding of the text.  Reading the path then gives the
text with unified line ends, which is the text itself when it has no carriage
return.
-/
theorem Native.read_of_write
    {machine : Machine}
    {path : String}
    {place : Path}
    (noNull : FileTree.hasNull path = false)
    (leads : FileTree.AtFile place (machine.world.files.resolve machine.world.directory path))
    (content : String) :
    ∃ after : Machine, call .writeFile [.text path, .text content] machine = .ok .null after ∧
      after = { machine with world := { machine.world with files := after.world.files } } ∧
      (∃ identity,
        after.world.files.get? place = some (.file identity content.toUTF8.data.toList)) ∧
      (∀ other ≠ place, after.world.files.get? other = machine.world.files.get? other) ∧
      call .readFile [.text path] after = .ok (.text (String.ofList
        (Text.replace ['\r'] ['\n'] (Text.replace ['\r', '\n'] ['\n'] content.toList)))) after ∧
      ('\r' ∉ content.toList →
        call .readFile [.text path] after = .ok (.text content) after) := by
  obtain ⟨files, isFiles⟩ : ∃ files,
      machine.world.files.setFile place (Text.encode content.toList) = files := ⟨_, rfl⟩
  have written := FileTree.writeText_eq_ok_iff.mpr ⟨noNull, place, leads, isFiles⟩
  obtain ⟨identity, changed⟩ :=
    FileTree.get?_setFile (Text.encode content.toList) leads.noDirectory
  rw [isFiles] at changed
  have isFile : files.get? place = some (.file identity (Text.encode content.toList)) := by
    rw [changed, if_pos rfl]
  have led := (FileTree.standsIn_of_writeText written).resolve isFile leads
  have read : call .readFile [.text path] { machine with world := { machine.world with files } } =
      .ok (.text (String.ofList (Text.unifyLineEnds content.toList)))
        { machine with world := { machine.world with files } } := by
    have isText := FileTree.readText_of_resolve noNull led
    show runReadFile _ _ = _
    simp only [runReadFile, stringArgument, argument, List.getD_cons_zero, pure_bind,
      inspectFiles_bind, isText]
    rfl
  refine ⟨{ machine with world := { machine.world with files } }, ?_, rfl, ⟨identity, ?_⟩,
    ?_, ?_, ?_⟩
  · show runWriteFile _ _ = _
    simp only [runWriteFile, stringArgument, argument, List.getD_cons_zero, List.getD_cons_succ,
      pure_bind, inspectFiles_bind, written]
    rfl
  · rw [← Text.encode_eq_toUTF8]
    exact isFile
  · intro other notPlace
    rw [changed, if_neg notPlace]
  · rw [read, Text.unifyLineEnds_eq_replace]
  · intro noReturn
    rw [read, Text.unifyLineEnds_eq _ noReturn, String.ofList_toList]

/-- A new file with line ends of all kinds and characters of several bytes. -/
theorem Native.read_of_write_new :
    FileTree.hasNull "f" = false ∧
      FileTree.AtFile ["f"] (FileTree.resolve {} [] "f") ∧
      ∃ after, call .writeFile [.text "f", .text "\r\r\n€\n𝄞\r"] {} = .ok .null after ∧
        call .readFile [.text "f"] after = .ok (.text "\n\n€\n𝄞\n") after := by
  have isVacant : FileTree.resolve {} [] "f" = .vacant ["f"] false := by decide +kernel
  have noNull : FileTree.hasNull "f" = false := by decide +kernel
  have leads : FileTree.AtFile ["f"] (FileTree.resolve {} [] "f") := isVacant ▸ .vacant
  obtain ⟨after, written, -, -, -, read, -⟩ :=
    @read_of_write {} "f" ["f"] noNull leads "\r\r\n€\n𝄞\r"
  refine ⟨noNull, leads, after, written, read.trans ?_⟩
  congr 2
  decide +kernel

end ArrowScript

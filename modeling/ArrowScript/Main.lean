import ArrowScript.Command.Basic
import Std.Time.DateTime.Timestamp

namespace ArrowScript.Main

/-!
# The program

The program loads the files below the working directory, carries out the
command, and brings the files up to date afterwards.
-/

def depth : Nat := 1000000000000

partial def load
    (directory : String)
    (path : Path)
    (tree : FileTree) : IO FileTree := do
  let mut tree := tree
  for name in ← entriesOf directory do
    let place := directory ++ "/" ++ name
    let inner := path ++ [name]
    if ← isDirectory place then
      tree ← load place inner (tree.set inner .directory)
    else
      try
        tree := tree.setFile inner (← IO.FS.readBinFile place).data.toList
      catch _ => pure ()
  return tree
where
  entriesOf (directory : String) : IO (List String) := do
    let listing ← (IO.FS.realPath directory >>= fun place => place.readDir)
    return (listing.map (·.fileName)).toList
  isDirectory (place : String) : IO Bool := do
    let real ← IO.FS.realPath place
    return (← real.isDir) && real.toString == place

/-- The directories on the way to a path, and the path itself. -/
def ancestors (path : Path) : List Path :=
  (List.range path.length).map fun count => path.take (count + 1)

def loadFiles (dir : Path) : IO FileTree := do
  let tree := (ancestors dir).foldl (fun (tree : FileTree) path => tree.set path .directory) {}
  load dir.shown dir tree

def removeFiles (before after : FileTree) : IO Unit := do
  for (path, node) in before.entries.reverse do
    if (after.get? path).isNone then
      match node with
      | .file .. => IO.FS.removeFile path.shown
      | .directory => IO.FS.removeDirAll path.shown

def writeFiles (before after : FileTree) : IO Unit := do
  for (path, node) in after.entries do
    if before.get? path ≠ some node then
      match node with
      | .file _ bytes => IO.FS.writeBinFile path.shown ⟨bytes.toArray⟩
      | .directory => IO.FS.createDirAll path.shown

/-- The input of a command; a terminal is not read ahead. -/
def loadInput : IO (List Char) := do
  let input ← IO.getStdin
  if ← input.isTty then
    return []
  else
    return (← input.readToEnd).toList

def run (args : List String) : IO UInt32 := do
  let directory := (Path.parts (← IO.currentDir).toString).filter (· != "")
  let files ← loadFiles directory
  let world : World :=
    { files := files, directory := directory, input := ← loadInput, clock := ← clock }
  let report := Command.run depth world args
  removeFiles files report.world.files
  writeFiles files report.world.files
  IO.print report.world.output
  IO.eprint report.errorText
  match report.status with
  | .ok status => return status.toUInt32
  | .error (.notText error) =>
      IO.eprintln error.message
      return 1
  | .error (.script _) => return 1
where
  clock : IO Nat := do
    return (← Std.Time.Timestamp.now).toMillisecondsSinceUnixEpoch.toInt.toNat

end ArrowScript.Main

def main (args : List String) : IO UInt32 :=
  ArrowScript.Main.run args

import ArrowScript.Native.Arguments

namespace ArrowScript

/-!
# Natives for files
-/

namespace Native

variable (args : List Value)

/-- Look at the files from the working directory. -/
def inspectFiles (look : FileTree → Path → α) : Action α :=
  fun machine => .ok (look machine.world.files machine.world.directory) machine

/-- Go on with other files. -/
def setFiles (files : FileTree) : Action Unit :=
  Action.changeWorld fun world => { world with files := files }

/-- Go on with files of which some were removed, perhaps the working directory among them. -/
def loseFiles (files : FileTree) : Action Unit :=
  Action.changeWorld fun world =>
    { world with files := files, directory := files.rename world.directory }

def runReadFile : Action Value := do
  let path ← stringArgument .readFile args 0 "path"
  match ← inspectFiles fun files dir => files.readText dir path with
  | .ok content => return .text content
  | .error .absent => refuse (.fileAbsent path)
  | .error .refused => refuse (.fileNotRead path)
  | .error .nullCharacter => refuse .nullInPath
  | .error (.notText error) => refuse (.notText error)

def runWriteFile : Action Value := do
  let path ← stringArgument .writeFile args 0 "path"
  let data ← stringArgument .writeFile args 1 "data"
  match ← inspectFiles fun files dir => files.writeText dir path data with
  | .ok files =>
      setFiles files
      return .null
  | .error .nullCharacter => refuse .nullInPath
  | .error _ => refuse (.fileNotWritten path)

def runDeleteFile : Action Value := do
  let path ← stringArgument .deleteFile args 0 "path"
  match ← inspectFiles fun files dir => files.deleteFile dir path with
  | .ok files =>
      setFiles files
      return .null
  | .error _ => refuse (.fileNotDeleted path)

def runDeleteDirectory : Action Value := do
  let path ← stringArgument .deleteDirectory args 0 "path"
  let (files, fault) ← inspectFiles fun files dir => files.deleteDirectory dir path
  loseFiles files
  match fault with
  | none => return .null
  | some .absent => refuse (.directoryAbsent path)
  | some .nullCharacter => refuse .nullInPath
  | some _ => refuse (.directoryNotDeleted path)

def runMakeDirectory : Action Value := do
  let path ← stringArgument .makeDirectory args 0 "path"
  let (files, fault) ← inspectFiles fun files dir =>
    FileTree.makeDirectories dir (path.length + 1) files path
  setFiles files
  match fault with
  | none => return .null
  | some .nullCharacter => refuse .nullInPath
  | some _ => refuse (.directoryNotMade path)

def runListFiles : Action Value := do
  let path ← stringArgument .listFiles args 0 "path"
  match ← inspectFiles fun files dir => files.listFiles dir path with
  | .ok names => newTexts (names.map String.toList)
  | .error .absent => refuse (.directoryAbsent path)
  | .error .nullCharacter => refuse .nullInPath
  | .error _ => refuse (.directoryNotRead path)

end Native

end ArrowScript

import ArrowScript.Files.Tree
import ArrowScript.Text.LineEnds

namespace ArrowScript

/-!
# Access to files

The operations that scripts and the command line perform on files, by path
text from a working directory.
-/

/-- Why a file cannot be used. -/
inductive FileFault
  | absent
  | refused
  | nullCharacter
  | notText (error : Text.DecodeError)
deriving Repr, DecidableEq

namespace FileTree

/-- Whether a path text holds a character that no path can have. -/
def hasNull (text : String) : Bool :=
  text.toList.contains '\x00'

/-- Whether a path text leads to a file. -/
def isFile (tree : FileTree) (dir : Path) (text : String) : Bool :=
  !hasNull text &&
    match tree.resolve dir text with
    | .found _ (.file ..) => true
    | _ => false

def isThere (tree : FileTree) (dir : Path) (text : String) : Bool :=
  !hasNull text &&
    match tree.resolve dir text with
    | .found .. => true
    | _ => false

def readBytes (tree : FileTree) (dir : Path)
    (text : String) : Except FileFault (List UInt8) :=
  if hasNull text then .error .nullCharacter
  else
    match tree.resolve dir text with
    | .found _ (.file _ bytes) => .ok bytes
    | .found _ .directory | .blocked => .error .refused
    | .vacant .. | .absent => .error .absent

/-- The text of a file. -/
def readText (tree : FileTree) (dir : Path) (text : String) : Except FileFault String := do
  let bytes ← tree.readBytes dir text
  match Text.decode bytes with
  | .ok chars => return String.ofList (Text.unifyLineEnds chars)
  | .error error => .error (.notText error)

/-- Write a text to a file, which may be new. -/
def writeText (tree : FileTree) (dir : Path)
    (text content : String) : Except FileFault FileTree :=
  if hasNull text then .error .nullCharacter
  else
    match tree.resolve dir text with
    | .found path (.file ..) | .vacant path false =>
        .ok (tree.setFile path (Text.encode content.toList))
    | _ => .error .refused

def deleteFile (tree : FileTree) (dir : Path) (text : String) : Except FileFault FileTree :=
  if hasNull text then .ok tree
  else
    match tree.resolve dir text with
    | .found path (.file ..) => .ok (tree.remove path)
    | .found _ .directory => .error .refused
    | _ => .ok tree

/-- Whether the last part of a path text is dotted, so that it does not name its directory. -/
def endsDotted (text : String) : Bool :=
  match ((Path.parts text).filter (· != "")).getLast? with
  | some part => part == "." || part == ".."
  | none => true

/-- Remove a directory that has become empty. -/
def deleteEmpty (tree : FileTree) (dir : Path)
    (text : String) : FileTree × Option FileFault :=
  match tree.resolve dir text with
  | .found path .directory =>
      if endsDotted text then (tree, some .refused) else (tree.remove path, none)
  | .found _ (.file ..) | .blocked => (tree, some .refused)
  | .vacant .. | .absent => (tree, some .absent)

/--
Remove a directory with everything in it; what was removed before a fault stays
removed.  The path text is followed once more when the directory is empty, so
it must not lead through what was in it.
-/
def deleteDirectory (tree : FileTree) (dir : Path)
    (text : String) : FileTree × Option FileFault :=
  if hasNull text then (tree, some .nullCharacter)
  else
    match tree.resolve dir text with
    | .found path .directory => (tree.clear path).deleteEmpty dir text
    | .found _ (.file ..) | .blocked => (tree, some .refused)
    | .vacant .. | .absent => (tree, some .absent)

/-- Make one directory; one that is there already is fine. -/
def makeDirectory (tree : FileTree) (dir : Path)
    (text : String) : Except FileFault FileTree :=
  if hasNull text then .error .nullCharacter
  else
    match tree.resolve dir text with
    | .vacant path _ => .ok (tree.set path .directory)
    | .found _ .directory => .ok tree
    | _ => .error .refused

/-- A path text in front of its last part, and that part, not counting slashes at the end. -/
def splitDirectory (text : String) : String × String :=
  let split := Path.splitLast text
  if split.2.isEmpty then Path.splitLast split.1 else split

/-- Make a directory and those on the way to it, at most `depth` of them. -/
def makeDirectories (dir : Path) :
    (depth : Nat) → FileTree → String → FileTree × Option FileFault
  | 0, tree, _ => (tree, some .refused)
  | depth + 1, tree, text =>
      let make := fun (tree : FileTree) =>
        match tree.makeDirectory dir text with
        | .ok changed => (changed, none)
        | .error fault => (tree, some fault)
      let (front, last) := splitDirectory text
      if front.isEmpty || last.isEmpty || tree.isThere dir front then make tree
      else
        match makeDirectories dir depth tree front with
        | (tree, some fault) => (tree, some fault)
        | (tree, none) => if last = "." then (tree, none) else make tree

/-- The names of the files in a directory. -/
def listFiles (tree : FileTree) (dir : Path)
    (text : String) : Except FileFault (List String) :=
  if hasNull text then .error .nullCharacter
  else
    match tree.resolve dir text with
    | .found path .directory =>
        .ok (((tree.names path).map (Path.join text)).filter (tree.isFile dir))
    | .found _ (.file ..) | .blocked => .error .refused
    | .vacant .. | .absent => .error .absent

end FileTree

end ArrowScript

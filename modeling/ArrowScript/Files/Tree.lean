import ArrowScript.Files.Path
import ArrowScript.Text.Utf8

namespace ArrowScript

/-!
# Trees of files

A tree lists what stands at each path.  A file keeps its identity as long as it
is not removed, so that an open file can be told from a new one of its name.
-/

/-- What can stand at a path. -/
inductive FileNode
  | file (identity : Nat) (bytes : List UInt8)
  | directory
deriving Repr, DecidableEq

/-- Files and directories by path; the root directory is always there. -/
structure FileTree where
  entries : List (Path × FileNode) := []
  nextIdentity : Nat := 0
deriving Repr, DecidableEq

/-- What following a path text leads to. -/
inductive Resolution
  | found (path : Path) (node : FileNode)
  /-- Nothing, in a directory that is there; slashes at the end ask for a directory. -/
  | vacant (path : Path) (slash : Bool)
  /-- Nothing, behind a part that is not there either. -/
  | absent
  /-- Nothing, because a part cannot be followed. -/
  | blocked
deriving Repr, DecidableEq

namespace FileTree

/-- What stands at a path. -/
def get? (tree : FileTree) (path : Path) : Option FileNode :=
  if path.isEmpty then some .directory else tree.entries.lookup path

/-- Put a node at a path in place of what stands there. -/
def set (tree : FileTree) (path : Path) (node : FileNode) : FileTree :=
  { tree with
    entries :=
      if (tree.entries.lookup path).isSome then
        tree.entries.map fun entry => if entry.1 == path then (path, node) else entry
      else tree.entries ++ [(path, node)] }

/-- Take away what stands at a path and below it. -/
def remove (tree : FileTree) (path : Path) : FileTree :=
  { tree with entries := tree.entries.filter fun entry => !path.isPrefixOf entry.1 }

/-- Take away what stands below a path. -/
def clear (tree : FileTree) (path : Path) : FileTree :=
  { tree with
    entries := tree.entries.filter fun entry => entry.1 == path || !path.isPrefixOf entry.1 }

/-- Put a new file at a path, or change the bytes of the file there. -/
def setFile (tree : FileTree) (path : Path) (bytes : List UInt8) : FileTree :=
  match tree.get? path with
  | some (.file identity _) => tree.set path (.file identity bytes)
  | _ =>
      { tree.set path (.file tree.nextIdentity bytes) with nextIdentity := tree.nextIdentity + 1 }

/-- The most bytes that the name of a file can have. -/
def longestName : Nat := 255

/--
Follow the parts of a path text from a directory.  One that was removed has no
places for anything new, but it can be left.
-/
def walk (tree : FileTree) (dir : Path) : List String → Resolution
  | [] => .found dir .directory
  | part :: rest =>
      if part = "" || part = "." then walk tree dir rest
      else if part = ".." then walk tree dir.dropLast rest
      else if longestName < part.utf8ByteSize then .blocked
      else
        let path := dir ++ [part]
        match tree.get? path with
        | some .directory => walk tree path rest
        | some (.file identity bytes) =>
            if rest.isEmpty then .found path (.file identity bytes) else .blocked
        | none =>
            if tree.get? dir = some .directory && rest.all (· == "") then
              .vacant path (!rest.isEmpty)
            else .absent

/-- Follow a path text from a working directory. -/
def resolve (tree : FileTree) (dir : Path) (text : String) : Resolution :=
  if text.isEmpty then .absent
  else tree.walk (if Path.isAbsolute text then [] else dir) (Path.parts text)

/-- How a directory is named when it may have been removed: what is gone has lost its name. -/
def rename (tree : FileTree) (dir : Path) : Path :=
  dir.mapIdx fun depth part =>
    if tree.get? (dir.take (depth + 1)) = some .directory then part else ""

/-- The names of what stands in a directory, in order. -/
def names (tree : FileTree) (path : Path) : List String :=
  (tree.entries.filterMap fun entry =>
    if entry.1.dropLast == path && !entry.1.isEmpty then entry.1.getLast? else none).mergeSort
      fun left right => decide (left ≤ right)

/-- Write bytes over those of an open file from an offset on; zeros fill a gap in front of them. -/
def overwrite (old : List UInt8) (offset : Nat) (bytes : List UInt8) : List UInt8 :=
  old.take offset ++ List.replicate (offset - old.length) 0 ++ bytes ++
    old.drop (offset + bytes.length)

/-- Write into an open file; nothing happens when it was removed. -/
def writeAt (tree : FileTree) (identity offset : Nat) (bytes : List UInt8) : FileTree :=
  { tree with
    entries := tree.entries.map fun entry =>
      match entry.2 with
      | .file candidate old =>
          if candidate = identity then (entry.1, .file candidate (overwrite old offset bytes))
          else entry
      | .directory => entry }

end FileTree

end ArrowScript

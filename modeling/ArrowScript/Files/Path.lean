namespace ArrowScript

/-!
# Paths

A path names the components on the way from the root directory.  A path text
is what scripts write; it may be relative and may have empty and dotted parts.
-/

/-- The names on the way from the root directory; a directory that was removed has lost its name. -/
abbrev Path := List String

namespace Path

/-- The parts of a path text between its slashes. -/
def parts (text : String) : List String :=
  (text.toList.splitOnP (· == '/')).map String.ofList

/-- Whether a path text starts at the root directory. -/
def isAbsolute (text : String) : Bool :=
  text.toList.head? == some '/'

/-- Follow one part of a path text without looking at any file. -/
def follow (path : Path) (part : String) : Path :=
  if part = "" || part = "." then path
  else if part = ".." then path.dropLast
  else path ++ [part]

/-- The path that a text names from a directory, without looking at any file. -/
def resolve (dir : Path) (text : String) : Path :=
  (parts text).foldl follow (if isAbsolute text then [] else dir)

/-- Whether a path leads through a directory that was removed. -/
def isLost (path : Path) : Bool :=
  path.contains ""

/-- The text of a path. -/
def shown (path : Path) : String :=
  "/" ++ "/".intercalate path

/-- The slashes at the start of a path text: two of them are kept, more count as one. -/
def root (text : String) : String :=
  let slashes := (text.toList.takeWhile (· == '/')).length
  if slashes = 0 then "" else if slashes = 2 then "//" else "/"

/-- The path text of a name in a directory. -/
def join (text name : String) : String :=
  if text.toList.getLast? == some '/' then text ++ name else text ++ "/" ++ name

/-- An absolute path text with the parts that count only. -/
def normal (text : String) : String :=
  root text ++ "/".intercalate (resolve [] text)

/-- The absolute path that a text stands for, unless it is relative to a removed directory. -/
def absolute? (dir : Path) (text : String) : Option String :=
  if isAbsolute text then some (normal text)
  else if dir.isLost then none
  else some (normal (join dir.shown text))

/-- Leave out slashes at the end, unless there is nothing else. -/
def dropSlashes (text : List Char) : List Char :=
  let kept := (text.reverse.dropWhile (· == '/')).reverse
  if kept.isEmpty then text else kept

/-- A path text in front of its last part, and that part. -/
def splitLast (text : String) : String × String :=
  let last := (text.toList.reverse.takeWhile (· != '/')).reverse
  let front := text.toList.take (text.toList.length - last.length)
  (String.ofList (dropSlashes front), String.ofList last)

/-- A path text without empty parts and parts that stay in place. -/
def tidy (text : String) : String :=
  let kept := (parts text).filter fun part => part != "" && part != "."
  if kept.isEmpty && !isAbsolute text then "." else root text ++ "/".intercalate kept

end Path

end ArrowScript

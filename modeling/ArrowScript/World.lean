import ArrowScript.Files.Access

namespace ArrowScript

/-!
# The world of a script

What a script can see and change outside the store: files, the working
directory, the input it reads and the output it writes.
-/

/-- What is outside of the store. -/
structure World where
  files : FileTree := {}
  directory : Path := []
  input : List Char := []
  output : String := ""
  clock : Nat := 0
  /-- How many items memory has room for; an array cannot hold the addresses of more. -/
  memory : Nat := 0x1000000000000000
deriving Repr, DecidableEq

/-- Write a text to the output. -/
def World.write (world : World) (text : String) : World :=
  { world with output := world.output ++ text }

/-- Write a text and a line end to the output. -/
def World.writeLine (world : World) (text : String) : World :=
  { world with output := (world.output ++ text).push '\n' }

/-- Take the next line of the input, if there is one. -/
def World.readLine (world : World) : Option String × World :=
  if world.input.isEmpty then (none, world)
  else
    let line := world.input.takeWhile (· != '\n')
    (some (String.ofList line), { world with input := world.input.drop (line.length + 1) })

end ArrowScript

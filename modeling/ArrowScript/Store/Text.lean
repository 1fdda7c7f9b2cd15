import ArrowScript.Number.Text
import ArrowScript.Store.Basic
import ArrowScript.Text.Quoted

namespace ArrowScript

/-!
# Values as text

A container that is met again inside itself is cut short, so every value has a
text.  `text` is what scripts print; `inspect` is what the host shows when it
looks into a value.
-/

namespace Store

def containerCount (store : Store) : Nat :=
  store.arrays.size + store.objects.size

def functionText (store : Store) (ref : Ref .function) : String :=
  ((store.function? ref).map Function.shown).getD ""

def groupText (store : Store) (ref : Ref .group) : String :=
  "<group " ++ (store.group ref).name ++ ">"

def commaSeparated (texts : List String) : String :=
  ", ".intercalate texts

/-- The text of a container that is not being written already; `write` gets those that are. -/
def container (around : List Value) (value : Value) (cut : String)
    (write : List Value → String) : String :=
  if around.contains value then cut else write (value :: around)

/-- The text of a value inside the containers `around`, at most `depth` containers deeper. -/
def textIn (store : Store) :
    (depth : Nat) → (around : List Value) → (quoted : Bool) → Value → String
  | _, _, _, .null => "null"
  | _, _, _, .bool value => if value then "True" else "False"
  | _, _, _, .number value => Number.display value
  | _, _, _, .integer ref => Number.display (Number.ofInt (store.integer ref))
  | _, _, quoted, .text value => if quoted then "\"" ++ value ++ "\"" else value
  | _, _, _, .function ref => store.functionText ref
  | _, _, _, .group ref => store.groupText ref
  | 0, _, _, .array _ => "[...]"
  | 0, _, _, .object _ => "(...)"
  | depth + 1, around, _, .array ref =>
      container around (.array ref) "[...]" fun around =>
        "[" ++ commaSeparated ((store.items ref).toList.map (textIn store depth around true)) ++ "]"
  | depth + 1, around, _, .object ref =>
      container around (.object ref) "(...)" fun around =>
        "(" ++ commaSeparated ((store.object ref).map fun item =>
          textIn store depth around true item.key ++ ": " ++
            textIn store depth around true item.value) ++ ")"

/-- The text of a value; `quoted` puts a string into quotes. -/
def text (store : Store) (quoted : Bool) (value : Value) : String :=
  store.textIn (store.containerCount + 1) [] quoted value

/-- Keys that are one key to the host, to which the booleans are the numbers one and zero. -/
def sameHostKey : Value → Value → Bool
  | .bool left, .number right => Number.same (if left then 1 else 0) right
  | .number left, .bool right => Number.same left (if right then 1 else 0)
  | left, right => left.same right

/-- Set a host key: the first key stays and the last value wins. -/
def setHostKey (key value : Value) : Object → Object
  | [] => [⟨key, value⟩]
  | item :: rest =>
      if sameHostKey item.key key then ⟨item.key, value⟩ :: rest
      else item :: setHostKey key value rest

/-- The entries of an object as the host keeps them. -/
def hostEntries (entries : Object) : Object :=
  entries.foldl (fun object item => setHostKey item.key item.value object) []

/-- How the host shows a value inside the arrays `around`, at most `depth` containers deeper. -/
def inspectIn (store : Store) : (depth : Nat) → (around : List Value) → Value → String
  | _, _, .null => "None"
  | _, _, .bool value => if value then "True" else "False"
  | _, _, .number value => Number.literal value
  | _, _, .integer ref => Number.integerText (store.integer ref)
  | _, _, .text value => Text.quoted value
  | _, _, .function ref => store.functionText ref
  | _, _, .group ref => store.groupText ref
  | 0, _, .array _ => "Array([...])"
  | 0, _, .object _ => "Object(...)"
  | depth + 1, around, .array ref =>
      container around (.array ref) "Array([...])" fun around =>
        "Array([" ++ commaSeparated ((store.items ref).toList.map (inspectIn store depth around)) ++
          "])"
  | depth + 1, around, .object ref =>
      "Object(\x7b" ++ commaSeparated ((hostEntries (store.object ref)).map fun item =>
        inspectIn store depth around item.key ++ ": " ++ inspectIn store depth around item.value) ++
          "\x7d)"

/-- The text of a value in listings of the host. -/
def inspect (store : Store) (value : Value) : String :=
  store.inspectIn (store.containerCount + 1) [] value

end Store

namespace HostValue

mutual

/-- Turn what a host function gave back into a value: integers into numbers, lists into arrays. -/
def settle (store : Store) : HostValue → Value × Store
  | .settled value => (value, store)
  | .integer value => (.number (Number.ofInt value), store)
  | .list items =>
      let (values, store) := settleAll store items
      let (ref, store) := store.newArray values.toArray
      (.array ref, store)

/-- Turn values of the host into values. -/
def settleAll (store : Store) : List HostValue → List Value × Store
  | [] => ([], store)
  | item :: rest =>
      let (value, store) := settle store item
      let (values, store) := settleAll store rest
      (value :: values, store)

end

end HostValue

end ArrowScript

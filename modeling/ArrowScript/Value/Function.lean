import ArrowScript.Value.Basic

namespace ArrowScript

/-!
# Functions

A function is written in a script or belongs to the host.
-/

/-- A function of a script: its body runs in a new scope inside the scope that declared it. -/
structure UserFunction where
  name : String
  parameters : List String
  body : Block
  closure : Ref .scope
  source : Nat

/-- What a host function gives back: a value, a whole number, or a list of such things. -/
inductive HostValue
  | settled (value : Value)
  | integer (value : Int)
  | list (items : List HostValue)
deriving Inhabited

/-- A function that the program running the scripts adds. -/
structure HostFunction where
  name : String
  arity : Nat
  call : List Value → Except String HostValue

/-- The functions that scripts find ready. -/
inductive Native
  | time | print | write | read | parseNumber | wait | length | fillArray | insert | removeAt
  | range | rangeTo | replace | split | choose | remainder | text | typeName
  | readFile | writeFile | deleteFile | deleteDirectory | makeDirectory | listFiles
  | matchFirst | matchAll | replaceMatches
  | host (function : HostFunction)

def Native.name : Native → String
  | .time => "time"
  | .print => "print"
  | .write => "write"
  | .read => "read"
  | .parseNumber => "parse_num"
  | .wait => "wait"
  | .length => "length"
  | .fillArray => "fill_array"
  | .insert => "insert"
  | .removeAt => "remove_at"
  | .range => "range"
  | .rangeTo => "range_to"
  | .replace => "replace"
  | .split => "split"
  | .choose => "if"
  | .remainder => "mod"
  | .text => "str"
  | .typeName => "type"
  | .readFile => "read_file"
  | .writeFile => "write_file"
  | .deleteFile => "del_file"
  | .deleteDirectory => "del_dir"
  | .makeDirectory => "make_dir"
  | .listFiles => "read_dir"
  | .matchFirst => "match"
  | .matchAll => "matches"
  | .replaceMatches => "replace"
  | .host fn => fn.name

def Native.arity : Native → Nat
  | .time | .read => 0
  | .print | .write | .parseNumber | .wait | .length | .fillArray | .rangeTo | .text
  | .typeName => 1
  | .removeAt | .range | .split | .remainder => 2
  | .insert | .replace | .choose => 3
  | .readFile | .deleteFile | .deleteDirectory | .makeDirectory | .listFiles => 1
  | .writeFile => 2
  | .matchFirst | .matchAll => 2
  | .replaceMatches => 3
  | .host fn => fn.arity

/-- A function of a script, or a native. -/
inductive Function
  | user (function : UserFunction)
  | native (function : Native)

def Function.name : Function → String
  | .user fn => fn.name
  | .native fn => fn.name

def Function.arity : Function → Nat
  | .user fn => fn.parameters.length
  | .native fn => fn.arity

/-- The text of a function. -/
def Function.shown : Function → String
  | .user fn => "<function @" ++ fn.name ++ ">"
  | .native fn => "<builtin @" ++ fn.name ++ ">"

/-- The natives that scripts can reach: some by name, and some in groups that can be imported. -/
structure Registry where
  functions : List Native
  groups : List (String × List Native)

namespace Registry

def empty : Registry := ⟨[], []⟩

/-- The natives of the language. -/
def standard : Registry where
  functions :=
    [.time, .print, .write, .read, .parseNumber, .wait, .length, .fillArray, .insert, .removeAt,
     .range, .rangeTo, .replace, .split, .choose, .remainder, .text, .typeName]
  groups :=
    [("IO", [.readFile, .writeFile, .deleteFile, .deleteDirectory, .makeDirectory, .listFiles]),
     ("Regex", [.matchFirst, .matchAll, .replaceMatches])]

/-- The native of a name; the one added last wins. -/
def function? (registry : Registry) (name : String) : Option Native :=
  registry.functions.reverse.find? fun native => native.name == name

/-- The natives of a group. -/
def group? (registry : Registry) (name : String) : Option (List Native) :=
  registry.groups.lookup name

def add (registry : Registry) (native : Native) : Registry :=
  { registry with functions := registry.functions ++ [native] }

/-- The names of the groups, sorted. -/
def groupNames (registry : Registry) : List String :=
  (registry.groups.map Prod.fst).mergeSort fun left right => decide (left ≤ right)

end Registry

end ArrowScript

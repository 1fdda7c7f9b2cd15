import ArrowScript.Number.Text

namespace ArrowScript

/-!
# Ordered documents

A document is a tree of records with ordered fields, lists and plain values.
`Document.json` writes it as indented JSON text.
-/

/-- A tree of plain data; fields of a record keep their order. -/
inductive Document
  | null
  | bool (value : Bool)
  | count (value : Nat)
  | number (value : Float)
  | text (value : String)
  | list (items : List Document)
  | record (fields : List (String × Document))
deriving Inhabited

namespace Document

/-- The hexadecimal digits of a number, padded with zeros to a width. -/
def hexadecimal (width value : Nat) : String :=
  let digits := Nat.toDigits 16 value
  String.ofList (List.replicate (width - digits.length) '0' ++ digits)

/-- A character inside a JSON string; quotes, backslashes and control characters are escaped. -/
def jsonCharacter (char : Char) : String :=
  if char = '"' then "\\\""
  else if char = '\\' then "\\\\"
  else if char = '\n' then "\\n"
  else if char = '\r' then "\\r"
  else if char = '\t' then "\\t"
  else if char.toNat = 8 then "\\b"
  else if char.toNat = 12 then "\\f"
  else if char.toNat < 32 then "\\u" ++ hexadecimal 4 char.toNat
  else String.ofList [char]

def jsonString (text : String) : String :=
  "\"" ++ String.join (text.toList.map jsonCharacter) ++ "\""

def newLine (depth : Nat) : String :=
  "\n" ++ String.ofList (List.replicate (2 * depth) ' ')

/-- Lines between brackets, or the bare brackets when there is nothing between them. -/
def bracketed (opening closing : String) (depth : Nat) (lines : List String) : String :=
  match lines with
  | [] => opening ++ closing
  | lines =>
      opening ++ newLine (depth + 1) ++ String.intercalate ("," ++ newLine (depth + 1)) lines ++
        newLine depth ++ closing

mutual

/-- A document as JSON text, two blanks for each level. -/
def jsonAt (depth : Nat) : Document → String
  | .null => "null"
  | .bool value => if value then "true" else "false"
  | .count value => Number.digits value
  | .number value => Number.textWith Number.displayWords value
  | .text value => jsonString value
  | .list items => bracketed "[" "]" depth (jsonItems (depth + 1) items)
  | .record fields => bracketed "\x7b" "\x7d" depth (jsonFields (depth + 1) fields)

def jsonItems (depth : Nat) : List Document → List String
  | [] => []
  | item :: rest => jsonAt depth item :: jsonItems depth rest

def jsonFields (depth : Nat) : List (String × Document) → List String
  | [] => []
  | (name, value) :: rest =>
      (jsonString name ++ ": " ++ jsonAt depth value) :: jsonFields depth rest

end

def json (document : Document) : String :=
  jsonAt 0 document

end Document

end ArrowScript

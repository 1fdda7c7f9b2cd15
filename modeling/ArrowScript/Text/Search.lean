namespace ArrowScript.Text

/-!
# Splitting and replacing

Occurrences of a word are found from left to right and do not overlap.
-/

/-- What follows a word at the start of a text. -/
def behind? : (word text : List Char) → Option (List Char)
  | [], text => some text
  | _ :: _, [] => none
  | expected :: word, character :: text =>
      if expected = character then behind? word text else none

theorem behind?_eq_some_iff {word text rest : List Char} :
    behind? word text = some rest ↔ text = word ++ rest := by
  fun_induction behind? word text with
  | case1 text => simp [eq_comm]
  | case2 => simp
  | case3 expected word text ih => simp [ih]
  | case4 expected word char text differs =>
      constructor
      · intro found
        cases found
      · intro shape
        cases shape
        exact absurd rfl differs

theorem length_lt_of_behind? {first : Char} {word text rest : List Char}
    (found : behind? (first :: word) text = some rest) : rest.length < text.length := by
  rw [behind?_eq_some_iff.mp found, List.length_append, List.length_cons]
  omega

def extendFirst (char : Char) : List (List Char) → List (List Char)
  | [] => [[char]]
  | part :: parts => (char :: part) :: parts

/-- The parts of a text between the occurrences of the word `first :: word`. -/
def split (first : Char) (word : List Char) : List Char → List (List Char)
  | [] => [[]]
  | char :: rest =>
      match _found : behind? (first :: word) (char :: rest) with
      | some behind => [] :: split first word behind
      | none => extendFirst char (split first word rest)
termination_by text => text.length
decreasing_by
  · exact length_lt_of_behind? _found
  · simp

/-- Replace every occurrence of the word `first :: word`. -/
def replaceWord (first : Char) (word replacement : List Char) : List Char → List Char
  | [] => []
  | char :: rest =>
      match _found : behind? (first :: word) (char :: rest) with
      | some behind => replacement ++ replaceWord first word replacement behind
      | none => char :: replaceWord first word replacement rest
termination_by text => text.length
decreasing_by
  · exact length_lt_of_behind? _found
  · simp

/-- Put a text in front of every character and at the end. -/
def intersperse (replacement : List Char) (text : List Char) : List Char :=
  text.flatMap (fun char => replacement ++ [char]) ++ replacement

/-- Replace every occurrence of a word; the empty word occurs around every character. -/
def replace (word replacement text : List Char) : List Char :=
  match word with
  | [] => intersperse replacement text
  | first :: word => replaceWord first word replacement text

end ArrowScript.Text

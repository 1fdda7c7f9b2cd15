namespace ArrowScript

/-!
# Places in a script text

A position counts code points.  Lines and columns start at one, offsets at
zero, and only a line feed starts a new line.
-/

/-- A place in a script text. -/
structure Position where
  offset : Nat
  line : Nat
  column : Nat
deriving Repr, DecidableEq, Inhabited

namespace Position

def start : Position := ⟨0, 1, 1⟩

/-- The place behind a character. -/
def advance (pos : Position) (char : Char) : Position :=
  if char = '\n' then
    ⟨pos.offset + 1, pos.line + 1, 1⟩
  else
    ⟨pos.offset + 1, pos.line, pos.column + 1⟩

/-- The place behind a text. -/
def after (pos : Position) (text : List Char) : Position :=
  text.foldl advance pos

/-- How messages name a place. -/
def label (pos : Position) : String :=
  "[L" ++ toString pos.line ++ ", C" ++ toString pos.column ++ "]"

@[simp]
theorem after_nil (pos : Position) : pos.after [] = pos :=
  rfl

@[simp]
theorem after_cons (pos : Position) (char : Char) (text : List Char) :
    pos.after (char :: text) = (pos.advance char).after text :=
  rfl

theorem after_append (pos : Position) (first second : List Char) :
    pos.after (first ++ second) = (pos.after first).after second := by
  simp [after, List.foldl_append]

end Position

end ArrowScript

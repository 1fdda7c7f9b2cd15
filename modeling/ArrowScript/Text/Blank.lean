import ArrowScript.Text.Range

namespace ArrowScript.Text

/-!
# White space

The characters with the Unicode bidirectional type or category of white space,
together with the separators among the control characters.
-/

def blankRanges : List (Nat × Nat) :=
  [(0x9, 0xd), (0x1c, 0x20), (0x85, 0x85), (0xa0, 0xa0), (0x1680, 0x1680), (0x2000, 0x200a),
    (0x2028, 0x2029), (0x202f, 0x202f), (0x205f, 0x205f), (0x3000, 0x3000)]

def isBlank (char : Char) : Bool :=
  inRanges blankRanges char

end ArrowScript.Text

namespace ArrowScript.Text

/-!
# Classes of characters given by code point ranges
-/

/-- Ranges from a code point on: how many code points to leave out and to take, in turn. -/
def rangesFrom (start : Nat) : List Nat → List (Nat × Nat)
  | omitted :: taken :: rest =>
      let first := start + omitted
      (first, first + taken - 1) :: rangesFrom (first + taken) rest
  | _ => []

/-- Whether a code point lies in one of the ranges, both ends included. -/
def inRanges (ranges : List (Nat × Nat)) (char : Char) : Bool :=
  ranges.any fun range => range.1 ≤ char.toNat && char.toNat ≤ range.2

end ArrowScript.Text

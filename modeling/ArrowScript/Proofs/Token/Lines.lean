import ArrowScript.Proofs.Token.Interpolation
import ArrowScript.Proofs.Token.Placement

namespace ArrowScript

/-!
# Lines are cut one behind the other

A text without errors ends outside of every string, comment and embedded
expression.  So a line break behind it is cut off on its own, and the text
behind the break is cut as if nothing stood in front of it.  Its tokens keep
their columns; their offsets and lines are those of the first text further on.

Layout looks back by one token only.  Behind a line break, and behind the tokens
that continue a line, a text is laid out as on its own unless it starts with a
closing bracket, which takes the line end back.
-/

theorem separator_lineBreak : Separator '\n' := {}

/-- The piece of a line break outside of embedded expressions. -/
def Piece.lineBreak : Piece :=
  ⟨['\n'], .lineBreak, []⟩

theorem pieces_lineBreak (later : List Char) :
    pieces [] ('\n' :: later) = .lineBreak :: pieces [] later := by
  rw [pieces, Step.next_other (.inr rfl) (by simp)]
  cases later <;> rfl

/-- A faultless text is cut on its own in front of a line break, and so is the text behind it. -/
theorem pieces_append_lineBreak (spans : List Nat) (text later : List Char)
    (faultless : ∀ piece ∈ pieces spans text, piece.faults = []) :
    pieces spans (text ++ '\n' :: later) = pieces spans text ++ .lineBreak :: pieces [] later := by
  fun_induction pieces spans text with
  | case1 spans =>
    cases spans with
    | nil => exact pieces_lineBreak later
    | cons depth outer => cases faultless _ List.mem_cons_self
  | case2 spans start rest step ih =>
    have faultlessStep := fun piece mem => faultless piece (List.mem_append_left _ mem)
    have faultlessRest := fun piece mem => faultless piece (List.mem_append_right _ mem)
    have behind := pieces_onto (.inl faultlessStep)
      (Fits.append separator_lineBreak step.rest later)
      (by cases step.rest <;> simp [endsComment])
    rw [← Step.source_next spans start rest, Step.source, List.append_assoc, behind,
      List.append_assoc, ← ih faultlessRest]

/-- The token of a line feed. -/
def Token.lineEnd (place : Position) : Token :=
  ⟨.lineEnd, "\n", place, .none⟩

/-- The line end of a line break: none behind nothing, a line end, an opening bracket or a comma. -/
def lineEndBehind (place : Position) (tokens : List Token) : List Token :=
  match tokens.getLast? with
  | none => []
  | some last =>
    if last.kind ∈ [Kind.lineEnd, .braceOpen, .parenOpen, .bracketOpen, .comma] then []
    else [.lineEnd place]

theorem Layout.continuesLine_iff (kind : Kind) :
    kind.continuesLine ↔
      kind ∈ [Kind.lineEnd, .braceOpen, .parenOpen, .bracketOpen, .comma] := by
  cases kind <;> decide

theorem Layout.absorbsLineEnd_iff (kind : Kind) :
    kind.absorbsLineEnd ↔ kind ∈ [Kind.parenClose, .bracketClose] := by
  cases kind <;> decide

theorem Layout.settle_append_lineEnd {second : List Token}
    (noClosing : ∀ token, (settle second).head? = some token →
      token.kind.absorbsLineEnd = false)
    (first : List Token) (place : Position) : settle (first ++ .lineEnd place :: second) =
      settle first ++ lineEndBehind place (settle first) ++ settle second := by
  have laid :=
    lay_append_lineEnd noClosing (show (Token.lineEnd place).kind = .lineEnd from rfl) none first
  rw [← settle_eq_lay, ← settle_eq_lay] at laid
  rw [laid, lineEndBehind]
  cases (settle first).getLast? with
  | none => rfl
  | some last => simp [continuesLine_iff]

/-- A place further on: offsets and lines are counted on, columns stay. -/
def Position.shift (pos : Position) (offsets lines : Nat) : Position :=
  ⟨pos.offset + offsets, pos.line + lines, pos.column⟩

/-- A token further down. -/
def Token.shift (token : Token) (offsets lines : Nat) : Token :=
  { token with start := token.start.shift offsets lines }

/-- An error further down. -/
def LexicalError.shift (error : LexicalError) (offsets lines : Nat) : LexicalError :=
  { error with place := error.place.shift offsets lines }

namespace Position

variable (pos : Position) (offsets lines : Nat)

theorem advance_shift (char : Char) : (pos.shift offsets lines).advance char =
      (pos.advance char).shift offsets lines := by
  unfold advance shift
  split
  · simp [Nat.add_right_comm]
  · simp [Nat.add_right_comm]

theorem after_shift (text : List Char) :
    (pos.shift offsets lines).after text = (pos.after text).shift offsets lines := by
  induction text generalizing pos with
  | nil => rfl
  | cons char text ih =>
    rw [after_cons, after_cons, advance_shift, ih]

/-- The place behind a text and a line break is the start of a text, further on. -/
theorem after_lineBreak (text : List Char) : Position.start.after (text ++ ['\n']) =
      Position.start.shift (text.length + 1) (1 + text.count '\n') := by
  rw [after_append, after_start]
  simp [advance, shift, start, Nat.add_comm]

end Position

namespace Piece

theorem located_append (place : Position) (first second : List Piece) :
    located place (first ++ second) =
      located place first ++ located (place.after (textOf first)) second := by
  induction first generalizing place with
  | nil => rfl
  | cons piece first ih =>
    have whole : textOf (piece :: first) = piece.text ++ textOf first := rfl
    rw [List.cons_append, located, located, ih, whole, Position.after_append,
      List.cons_append]

theorem located_shift (place : Position) (offsets lines : Nat) (pieces : List Piece) :
    located (place.shift offsets lines) pieces =
      (located place pieces).map fun item => (item.1.shift offsets lines, item.2) := by
  induction pieces generalizing place with
  | nil => rfl
  | cons piece pieces ih =>
    rw [located, located, Position.after_shift, ih, List.map_cons]

theorem token?_shift (piece : Piece) (place : Position) (offsets lines : Nat) :
    piece.token? (place.shift offsets lines) =
      (piece.token? place).map (·.shift offsets lines) := by
  obtain ⟨text, content, faults⟩ := piece
  cases content <;> rfl

theorem errors_shift (piece : Piece) (place : Position) (offsets lines : Nat) :
    piece.errors (place.shift offsets lines) =
      (piece.errors place).map (·.shift offsets lines) := by
  simp [errors, Position.after_shift, LexicalError.shift]

end Piece

theorem Layout.settle_shift (offsets lines : Nat) (tokens : List Token) :
    settle (tokens.map (·.shift offsets lines)) =
      (settle tokens).map (·.shift offsets lines) := by
  apply settle_map
  exact fun _ => rfl

/-- Pieces behind a line break stand where they stand on their own, further on. -/
theorem Piece.located_append_lineBreak (first second : List Piece) :
    located .start (first ++ .lineBreak :: second) =
      located .start first ++ (Position.start.after (textOf first), .lineBreak) ::
        (located .start second).map fun item =>
          (item.1.shift ((textOf first).length + 1) (1 + (textOf first).count '\n'), item.2) := by
  rw [located_append, located, ← Position.after_append]
  have behind : textOf first ++ lineBreak.text = textOf first ++ ['\n'] := rfl
  rw [behind, Position.after_lineBreak, located_shift]

section

variable
  {first second : List Char}
  (faultless : ∀ piece ∈ pieces [] first, piece.faults = [])

include faultless

theorem located_pieces_append_lineBreak (second : List Char) :
    Piece.located .start (pieces [] (first ++ '\n' :: second)) =
      Piece.located .start (pieces [] first) ++ (Position.start.after first, .lineBreak) ::
        (Piece.located .start (pieces [] second)).map fun item =>
          (item.1.shift (first.length + 1) (1 + first.count '\n'), item.2) := by
  have places := Piece.located_append_lineBreak (pieces [] first) (pieces [] second)
  rwa [textOf_pieces, ← pieces_append_lineBreak [] first second faultless] at places

theorem rawTokens_append_lineBreak (second : List Char) : rawTokens (first ++ '\n' :: second) =
      rawTokens first ++ .lineEnd (Position.start.after first) ::
        (rawTokens second).map (·.shift (first.length + 1) (1 + first.count '\n')) := by
  unfold rawTokens
  rw [located_pieces_append_lineBreak faultless, List.filterMap_append, List.filterMap_cons,
    List.filterMap_map, List.map_filterMap]
  simp only [Function.comp_def, Piece.token?_shift]
  rfl

/-- The tokens of two texts on lines of their own, the first without faults. -/
theorem tokens_append_lineBreak
    (noClosing : ∀ token, (lexChars second).tokens.head? = some token →
      token.kind ∉ [.parenClose, .bracketClose]) :
    (lexChars (first ++ '\n' :: second)).tokens = (lexChars first).tokens.dropLast ++
      lineEndBehind (Position.start.after first) (lexChars first).tokens.dropLast ++
      (lexChars second).tokens.map (·.shift (first.length + 1) (1 + first.count '\n')) := by
  have opens : ∀ token, (Layout.settle ((rawTokens second).map
        (·.shift (first.length + 1) (1 + first.count '\n')))).head? = some token →
      token.kind.absorbsLineEnd = false := by
    intro token isFirst
    rw [Layout.settle_shift, List.head?_map] at isFirst
    obtain ⟨original, isOriginal, rfl⟩ := Option.map_eq_some_iff.mp isFirst
    have isHead : (lexChars second).tokens.head? = some original := by
      rw [lexChars_tokens, List.head?_append, isOriginal, Option.some_or]
    have noBracket := noClosing original isHead
    rw [← Layout.absorbsLineEnd_iff] at noBracket
    exact Bool.eq_false_iff.mpr noBracket
  have last : Position.start.after (first ++ '\n' :: second) =
      (Position.start.after second).shift (first.length + 1) (1 + first.count '\n') := by
    rw [List.append_cons, Position.after_append, Position.after_lineBreak, Position.after_shift]
  rw [lexChars_tokens, lexChars_tokens, lexChars_tokens, rawTokens_append_lineBreak faultless,
    Layout.settle_append_lineEnd opens, Layout.settle_shift, List.dropLast_concat, last,
    List.map_append, List.append_assoc _ _ [_]]
  rfl

theorem errors_append_lineBreak (second : List Char) : (lexChars (first ++ '\n' :: second)).errors =
      (lexChars second).errors.map (·.shift (first.length + 1) (1 + first.count '\n')) := by
  have none : ((Piece.located .start (pieces [] first)).flatMap fun piece =>
      piece.2.errors piece.1) = [] := by
    refine List.flatMap_eq_nil_iff.mpr fun item located => ?_
    rw [Piece.errors, faultless item.2 (Piece.mem_of_located located), List.map_nil]
  unfold lexChars
  simp only
  rw [located_pieces_append_lineBreak faultless, List.flatMap_append, List.flatMap_cons, none,
    List.flatMap_map, List.map_flatMap]
  simp only [Piece.errors_shift]
  rfl

end

/--
Two texts on lines of their own, the first without errors and the second not
starting with a closing bracket: the tokens of the first, a line end unless
there is nothing to end, and the tokens and errors of the second, further on.
-/
theorem lex_append_lineBreak
    {first second : String}
    (firstNoReturn : '\r' ∉ first.toList)
    (secondNoReturn : '\r' ∉ second.toList)
    (noErrors : (lex first).errors = [])
    (noClosing :
      ∀ token, (lex second).tokens.head? = some token →
        token.kind ∉ [.parenClose, .bracketClose]) :
    (lex (first ++ "\n" ++ second)).tokens =
        (lex first).tokens.dropLast ++
          lineEndBehind (Position.start.after first.toList) (lex first).tokens.dropLast ++
          (lex second).tokens.map
            (·.shift (first.length + 1) (1 + first.toList.count '\n')) ∧
      (lex (first ++ "\n" ++ second)).errors =
        (lex second).errors.map (·.shift (first.length + 1) (1 + first.toList.count '\n')) := by
  have faultless := (lex_errors firstNoReturn).mp noErrors
  have whole : (first ++ "\n" ++ second).toList = first.toList ++ '\n' :: second.toList := by
    simp
  have noReturn : '\r' ∉ first.toList ++ '\n' :: second.toList := by
    simp [firstNoReturn, secondNoReturn]
  unfold lex at noClosing ⊢
  rw [Text.unifyLineEnds_eq _ secondNoReturn] at noClosing ⊢
  rw [whole, Text.unifyLineEnds_eq _ noReturn, Text.unifyLineEnds_eq _ firstNoReturn,
    ← String.length_toList]
  exact ⟨tokens_append_lineBreak faultless noClosing, errors_append_lineBreak faultless _⟩

/-- A comment in front of the break, and an error in a line behind it. -/
theorem lex_append_lineBreak_behind_comment :
    '\r' ∉ "x # y".toList ∧
      (lex "x # y").errors = [] ∧
      (lex ("x # y" ++ "\n" ++ "\n  z $")).tokens.map (fun token => (token.kind, token.start)) =
        [(.identifier, ⟨0, 1, 1⟩), (.lineEnd, ⟨5, 1, 6⟩), (.identifier, ⟨9, 3, 3⟩),
          (.endOfInput, ⟨12, 3, 6⟩)] ∧
      (lex ("x # y" ++ "\n" ++ "\n  z $")).errors =
        [⟨⟨11, 3, 5⟩, .unexpectedCharacter '$'⟩] := by
  have noErrors : (lex "x # y").errors = [] := by decide +kernel
  have noReturn : '\r' ∉ "x # y".toList ∧ '\r' ∉ "\n  z $".toList := by decide +kernel
  have noClosing : ∀ token, (lex "\n  z $").tokens.head? = some token →
      token.kind ∉ [.parenClose, .bracketClose] := by
    have isName : (lex "\n  z $").tokens.head?.map Token.kind = some .identifier := by
      decide +kernel
    intro token isFirst
    rw [isFirst] at isName
    rw [Option.some.inj isName]
    decide
  obtain ⟨tokens, errors⟩ := lex_append_lineBreak noReturn.1 noReturn.2 noErrors noClosing
  refine ⟨noReturn.1, noErrors, ?_, ?_⟩
  · rw [tokens]
    decide +kernel
  · rw [errors]
    decide +kernel

end ArrowScript

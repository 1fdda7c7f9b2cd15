import Mathlib.Data.List.Induction
import ArrowScript.Proofs.Text.Replacement
import ArrowScript.Proofs.Token.Stream

namespace ArrowScript

/-!
# Where the tokens of a text stand

Whatever is wrong with a text, its tokens are stretches of it: the lexeme of a
token is what the text holds at the offsets of the token, its line and its
column are those of its offset, and tokens do not overlap.

Pieces are placed by going over the text in front of them.  So it suffices to
say what going over a text counts, and to cut the text at a piece.
-/

/-- The offset right behind the last line feed of a text; zero when it has none. -/
def Text.lineStart (text : List Char) : Nat :=
  text.length - text.reverse.idxOf '\n'

variable (text : List Char)

theorem Text.lineStart_concat (char : Char) :
    lineStart (text ++ [char]) =
      if char = '\n' then text.length + 1 else lineStart text := by
  unfold lineStart
  rw [List.reverse_concat, List.idxOf_cons, List.length_append, List.length_singleton]
  by_cases isBreak : char = '\n'
  · simp [isBreak]
  · have noBreak : (char == '\n') = false := by simpa using isBreak
    simp only [noBreak, isBreak, cond_false, if_false]
    omega

/-- Going over a text counts its characters, its line feeds, and the characters of its last line. -/
theorem Position.after_start : Position.start.after text =
      ⟨text.length, 1 + text.count '\n', 1 + (text.length - Text.lineStart text)⟩ := by
  induction text using List.reverseRecOn with
  | nil => rfl
  | append_singleton text char ih =>
    have bounded : Text.lineStart text ≤ text.length := Nat.sub_le _ _
    rw [Position.after_append, ih, Position.after_cons, Position.after_nil,
      Position.advance, Text.lineStart_concat, List.count_append, List.count_singleton,
      List.length_append, List.length_singleton]
    by_cases isBreak : char = '\n'
    · simp [isBreak, Nat.add_assoc]
    · simp [isBreak]
      omega

/-- A token is the stretch of a text that its place and length say, with its line and column. -/
structure Token.StandsIn (text : List Char) (token : Token) : Prop where
  inside : token.stop ≤ text.length
  lexeme : token.lexeme.toList = text.extract token.start.offset token.stop
  line : token.start.line = 1 + (text.take token.start.offset).count '\n'
  column : token.start.column =
    1 + (token.start.offset - Text.lineStart (text.take token.start.offset))

variable {token : Token}

/-- A token that starts behind a part of a text and holds what follows stands in the text. -/
theorem Token.standsIn_of_split {text before behind : List Char}
    (place : token.start = Position.start.after before)
    (shape : text = before ++ token.lexeme.toList ++ behind) : token.StandsIn text := by
  rw [Position.after_start] at place
  have offset : token.start.offset = before.length := by rw [place]
  have front : text.take token.start.offset = before := by
    rw [offset, shape, List.append_assoc, List.take_left]
  refine ⟨?_, ?_, by rw [front, place], by rw [front, place]⟩
  · rw [Token.stop, offset, shape, List.length_append, List.length_append, String.length_toList]
    exact Nat.le_add_right _ _
  · rw [Token.stop, List.extract_eq_take_drop, Nat.add_sub_cancel_left, offset, shape,
      List.append_assoc, List.drop_left, ← String.length_toList, List.take_left]

namespace Piece

theorem split_of_located {place : Position} {pieces : List Piece} {item : Position × Piece}
    (mem : item ∈ located place pieces) :
    ∃ front back, pieces = front ++ item.2 :: back ∧ item.1 = place.after (textOf front) := by
  induction pieces generalizing place with
  | nil => cases mem
  | cons piece rest ih =>
    rcases List.mem_cons.mp mem with rfl | inRest
    · exact ⟨[], rest, rfl, rfl⟩
    · obtain ⟨front, back, shape, behind⟩ := ih inRest
      refine ⟨piece :: front, back, by rw [shape, List.cons_append], ?_⟩
      rw [behind, ← Position.after_append]
      rfl

theorem lexeme_token? {piece : Piece} {place : Position}
    (found : piece.token? place = some token) : token.lexeme.toList = piece.text := by
  obtain ⟨text, content, faults⟩ := piece
  cases content <;> cases found <;> exact String.toList_ofList

theorem standsIn_of_located {pieces : List Piece} {item : Position × Piece}
    (mem : item ∈ located .start pieces) (found : item.2.token? item.1 = some token) :
    token.StandsIn (textOf pieces) := by
  obtain ⟨front, back, shape, place⟩ := split_of_located mem
  have start : token.start = Position.start.after (textOf front) := by
    rw [start_token? found, place]
  have whole : textOf pieces = textOf front ++ token.lexeme.toList ++ textOf back := by
    rw [lexeme_token? found, shape]
    simp [textOf]
  exact Token.standsIn_of_split start whole

theorem located_apart (place : Position) (pieces : List Piece) :
    (located place pieces).Pairwise fun first second =>
      first.1.offset + first.2.text.length ≤ second.1.offset := by
  induction pieces generalizing place with
  | nil => exact List.Pairwise.nil
  | cons piece rest ih =>
    refine List.Pairwise.cons ?_ (ih _)
    intro later mem
    have bounds := (located_bounds mem).1
    rwa [Position.offset_after] at bounds

end Piece

theorem Piece.tokens_apart (place : Position) (pieces : List Piece) :
    ((located place pieces).filterMap fun piece => piece.2.token? piece.1).Pairwise
      fun first second => first.stop ≤ second.start.offset := by
  apply List.Pairwise.filterMap _ _ (located_apart place pieces)
  intro first second apart firstToken firstFound secondToken secondFound
  have length : firstToken.lexeme.length = first.2.text.length := by
    rw [← String.length_toList, lexeme_token? firstFound]
  rw [Token.stop, length, start_token? firstFound, start_token? secondFound]
  exact apart

/-- The tokens of a text before its line ends are laid out. -/
def rawTokens (text : List Char) : List Token :=
  (Piece.located .start (pieces [] text)).filterMap fun piece => piece.2.token? piece.1

theorem lexChars_tokens : (lexChars text).tokens =
      Layout.settle (rawTokens text) ++ [Token.endOfInput (Position.start.after text)] :=
  rfl

/-- A token in front of the end of the input is that of a located piece. -/
theorem exists_located_of_settled {text : List Char}
    (mem : token ∈ Layout.settle (rawTokens text)) :
    ∃ item ∈ Piece.located .start (pieces [] text), item.2.token? item.1 = some token :=
  List.mem_filterMap.mp ((Layout.settle_sublist _).subset mem)

theorem lexChars_standsIn : ∀ token ∈ (lexChars text).tokens, token.StandsIn text := by
  intro token mem
  rcases List.mem_append.mp mem with inside | isLast
  · obtain ⟨item, located, found⟩ := exists_located_of_settled inside
    rw [← textOf_pieces [] text]
    exact Piece.standsIn_of_located located found
  · rw [List.mem_singleton.mp isLast]
    have shape :
        text = text ++ (Token.endOfInput (Position.start.after text)).lexeme.toList ++ [] := by
      simp [Token.endOfInput]
    exact Token.standsIn_of_split rfl shape

theorem lexChars_apart :
    (lexChars text).tokens.Pairwise fun first second => first.stop ≤ second.start.offset := by
  refine List.pairwise_append.mpr ⟨?_, List.pairwise_singleton _ _, ?_⟩
  · exact (Piece.tokens_apart _ _).sublist (Layout.settle_sublist _)
  · intro token inside last isLast
    rw [List.mem_singleton.mp isLast, Token.endOfInput, Position.after_start]
    exact (lexChars_standsIn text token (List.mem_append_left _ inside)).inside

/-- The text of a source as it is cut: returns, with or without a line feed, are line feeds. -/
def unified (source : String) : List Char :=
  Text.replace ['\r'] ['\n'] (Text.replace ['\r', '\n'] ['\n'] source.toList)

/--
The tokens of every source end in the end of the input, which is empty, stands
at the end of the text and nowhere else.  Every token is the stretch of the text
that its place says, with the line and the column of its start, and it ends in
front of every later token.
-/
theorem lex_places_exact (source : String) :
    (∃ front last,
        (lex source).tokens = front ++ [last] ∧
          last.kind = .endOfInput ∧
          last.lexeme = "" ∧
          last.start.offset = (unified source).length ∧
          ∀ token ∈ front, token.kind ≠ .endOfInput) ∧
      (∀ token ∈ (lex source).tokens, token.StandsIn (unified source)) ∧
      (lex source).tokens.Pairwise fun first second => first.stop ≤ second.start.offset := by
  have isText : unified source = Text.unifyLineEnds source.toList :=
    (Text.unifyLineEnds_eq_replace _).symm
  rw [isText]
  refine ⟨?_, lexChars_standsIn _, lexChars_apart _⟩
  obtain ⟨front, last, shape, -, inside⟩ := lex_terminated source
  have isLast :
      [last] = [Token.endOfInput (Position.start.after (Text.unifyLineEnds source.toList))] :=
    List.append_inj_right' (shape.symm.trans rfl) rfl
  cases isLast
  exact ⟨front, _, shape, rfl, rfl, by rw [Token.endOfInput, Position.after_start], inside⟩

end ArrowScript

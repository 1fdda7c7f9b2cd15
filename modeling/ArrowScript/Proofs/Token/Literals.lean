import ArrowScript.Proofs.Token.Gaps

namespace ArrowScript

/-!
# String literals

A text between quotes, with its backslashes, quotes and returns escaped, is one
token that stands for the text.  Line feeds and tabs may be escaped as well, each
where it is wanted.  Whatever stands behind the closing quote is cut as if the
script text started there.
-/

/-- A character inside of a literal; the flag escapes one that could stand for itself. -/
def quoteChar : Char × Bool → List Char
  | ('\\', _) => ['\\', '\\']
  | ('"', _) => ['\\', '"']
  | ('\r', _) => ['\\', 'r']
  | ('\n', true) => ['\\', 'n']
  | ('\t', true) => ['\\', 't']
  | (char, _) => [char]

/-- The literal of a text, given with the characters that are escaped although they need not be. -/
def stringLiteral (text : List (Char × Bool)) : List Char :=
  '"' :: text.flatMap quoteChar ++ ['"']

theorem Quoted.string_quoteChar (item : Char × Bool) (rest : List Char) :
    string (quoteChar item ++ rest) = (string rest).prepend (quoteChar item) [item.1] [] := by
  fun_cases quoteChar item with
  | case1 | case2 | case3 | case4 | case5 => rfl
  | case6 char _ noBackslash noQuote =>
    rw [List.singleton_append, string]
    · exact noQuote
    · exact fun isBackslash _ => noBackslash isBackslash
    · exact fun _ _ isBackslash _ => noBackslash isBackslash

variable (text : List (Char × Bool))

/-- A literal is read up to its closing quote. -/
theorem Quoted.string_literal (rest : List Char) :
    string (text.flatMap quoteChar ++ '"' :: rest) =
      ⟨text.flatMap quoteChar, text.map Prod.fst, [], .quote, rest⟩ := by
  induction text with
  | nil => rfl
  | cons item text ih =>
    rw [List.flatMap_cons, List.append_assoc, string_quoteChar, ih]
    rfl

/-- The piece of a literal. -/
def Piece.stringLiteral (text : List (Char × Bool)) : Piece :=
  ⟨ArrowScript.stringLiteral text, .token .string
    (.text (String.ofList (text.map Prod.fst))), []⟩

theorem pieces_literal (rest : List Char) :
    pieces [] (stringLiteral text ++ rest) = .stringLiteral text :: pieces [] rest := by
  have isCut : Cut.next false '"' (text.flatMap quoteChar ++ '"' :: rest) =
      ⟨.stringLiteral text, rest⟩ := by
    show Cut.string _ = _
    rw [Cut.string, Quoted.string_literal]
    simp [Piece.stringLiteral, stringLiteral, Ending.text]
  have shape : stringLiteral text ++ rest = '"' :: (text.flatMap quoteChar ++ '"' :: rest) := by
    simp [stringLiteral]
  rw [shape, pieces, Step.next_other (.inr rfl) (by simp), List.isEmpty_nil, Bool.not_true, isCut]
  rfl

theorem unifyLineEnds_literal (rest : List Char) :
    Text.unifyLineEnds (stringLiteral text ++ rest) = stringLiteral text ++
      Text.unifyLineEnds rest := by
  apply Text.unifyLineEnds_append
  have noReturn : ∀ item, '\r' ∉ quoteChar item := by
    intro item
    fun_cases quoteChar item <;> simp_all [eq_comm]
  simp [stringLiteral, noReturn]

/--
String literals round-trip.  A literal alone is one token that stands for its
text, without errors.  In front of any text it is the same first token, and the
tokens and errors behind it are those of that text cut on its own from right
behind the closing quote.
-/
theorem lex_literal (text : List (Char × Bool)) :
    let token : Token := ⟨.string, String.ofList (stringLiteral text), .start,
      .text (String.ofList (text.map Prod.fst))⟩
    let place := Position.start.after (stringLiteral text)
    (lex (String.ofList (stringLiteral text))).tokens = [token, .endOfInput place] ∧
      (lex (String.ofList (stringLiteral text))).errors = [] ∧
      ∀ behind : String,
        (lex (String.ofList (stringLiteral text) ++ behind)).tokens =
          token :: Layout.lay (some .string)
            (Piece.tokensFrom place (allPieces (unified behind))) ∧
        (lex (String.ofList (stringLiteral text) ++ behind)).errors =
          (Piece.located place (pieces [] (unified behind))).flatMap fun piece =>
            piece.2.errors piece.1 := by
  intro token place
  have tokens : ∀ rest, (lexChars (stringLiteral text ++ rest)).tokens =
      token :: Layout.lay (some .string) (Piece.tokensFrom place (allPieces rest)) := by
    intro rest
    rw [lexChars_tokens_eq_lay, allPieces, pieces_literal]
    exact Layout.lay_of_other (by simp)
  have errors : ∀ rest, (lexChars (stringLiteral text ++ rest)).errors =
      (Piece.located place (pieces [] rest)).flatMap fun piece => piece.2.errors piece.1 := by
    intro rest
    rw [lexChars, pieces_literal]
    rfl
  have whole : ∀ behind : String, lex (String.ofList (stringLiteral text) ++ behind) =
      lexChars (stringLiteral text ++ unified behind) := by
    intro behind
    rw [lex, String.toList_append, String.toList_ofList, unifyLineEnds_literal,
      Text.unifyLineEnds_eq_replace]
    rfl
  have nothing : unified "" = [] ∧ pieces [] [] = [] := by
    simp [unified, Text.replace_nil, pieces, closing]
  have alone := whole ""
  rw [String.append_empty, nothing.1] at alone
  rw [alone, tokens, errors, allPieces, nothing.2]
  refine ⟨?_, rfl, fun behind => ?_⟩
  · exact congrArg _ (Layout.lay_of_other (by simp))
  · rw [whole]
    exact ⟨tokens _, errors _⟩

end ArrowScript

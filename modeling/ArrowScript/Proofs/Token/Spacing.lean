import ArrowScript.Proofs.Token.Lines
import ArrowScript.Proofs.Token.Nesting

namespace ArrowScript

/-!
# Tokens with single blanks between them

Where no interpolated string stands, a token is cut off its own text, whatever
stood behind it before, and a blank behind it starts nothing that it could go on
with.  So the texts of the tokens of a source, with blanks between them, are cut
into these tokens again.  Comments and other blanks are gone.  Of the line breaks
those are left that end a line, and layout leaves them all where they are.
-/

theorem separator_blank : Separator ' ' := {}

/-- A piece is what its own text starts with, and all of it. -/
def Piece.Whole (piece : Piece) : Prop :=
  ∃ start rest, start ≠ '#' ∧ Cut.next false start rest = ⟨piece, []⟩

theorem Cut.next_comment (embedded : Bool) (rest : List Char) :
    (next embedded '#' rest).piece.kind? = none := by
  have shape : next embedded '#' rest = comment embedded rest := by
    cases rest <;> rfl
  rw [shape]
  unfold comment
  split
  · simp only
    split <;> rfl
  · rfl

variable {rest : List Char} {start : Char}

/-- A token without faults is cut off its own text. -/
theorem Cut.next_whole
    (faultless : (next false start rest).piece.faults = [])
    (isToken : (next false start rest).piece.kind? ≠ none) :
    (next false start rest).piece.Whole := by
  have noComment : start ≠ '#' := by
    rintro rfl
    exact isToken (next_comment false rest)
  have own := next_onto false false (.inl faultless) (.nil _) (fun _ => rfl)
    (fun isMark => absurd isMark noComment)
  exact ⟨start, _, noComment, own⟩

theorem Cut.next_append_blank {piece : Piece}
    (noComment : start ≠ '#') (faultless : piece.faults = [])
    (isNext : next false start rest = ⟨piece, []⟩) (later : List Char) :
    next false start (rest ++ ' ' :: later) = ⟨piece, ' ' :: later⟩ := by
  have own := tail_append_rest false start rest
  have fits : Fits (' ' :: later) (next false start rest).rest := by
    rw [isNext]
    exact Fits.append separator_blank [] later
  have behind := next_onto false false (.inl (by rw [isNext, faultless])) fits (fun _ => rfl)
    (fun isMark => absurd isMark noComment)
  rw [isNext, List.append_nil] at own
  rwa [isNext, own] at behind

theorem pieces_blank (spans : List Nat) (later : List Char) :
    pieces spans (' ' :: later) = .gap [' '] :: pieces spans later := by
  rw [pieces, Step.next_other (.inl (by simp)) (by simp)]
  cases later <;> rfl

namespace Piece.Whole

variable {piece : Piece}

theorem text_eq
    (isNext : Cut.next false start rest = ⟨piece, []⟩) : piece.text = start :: rest := by
  have whole := Cut.source_next false start rest
  rwa [isNext, Cut.source, List.append_nil] at whole

theorem noQuote (isNext : Cut.next false start rest = ⟨piece, []⟩) :
    ∀ inner, start = '@' → rest ≠ '"' :: inner := by
  rintro inner rfl rfl
  exact absurd (congrArg Cut.rest isNext) (List.cons_ne_nil _ _)

theorem pieces_eq (whole : piece.Whole) : pieces [] piece.text = [piece] := by
  obtain ⟨start, rest, -, isNext⟩ := whole
  rw [text_eq isNext, pieces, Step.next_other (.inr rfl) (noQuote isNext), List.isEmpty_nil,
    Bool.not_true, isNext]
  simp [Step.single, pieces, closing]

theorem pieces_append (whole : piece.Whole) (faultless : piece.faults = []) (later : List Char) :
    pieces [] (piece.text ++ ' ' :: later) = piece :: .gap [' '] :: pieces [] later := by
  obtain ⟨start, rest, noComment, isNext⟩ := whole
  have alone : ∀ inner, start = '@' → rest ++ [] ≠ '"' :: inner := by
    simpa using noQuote isNext
  have opensNothing : ∀ inner, start = '@' → rest ++ ' ' :: later ≠ '"' :: inner :=
    Step.noQuote_onto (Fits.append separator_blank [] later) alone
  rw [text_eq isNext, List.cons_append, pieces, Step.next_other (.inr rfl) opensNothing,
    List.isEmpty_nil, Bool.not_true, Cut.next_append_blank noComment faultless isNext,
    ← pieces_blank]
  rfl

end Piece.Whole

/-- Outside of interpolated strings every token is cut off its own text. -/
theorem pieces_whole {text : List Char}
    (faultless : ∀ piece ∈ pieces [] text, piece.faults = [])
    (noStrings : ∀ piece ∈ pieces [] text, piece.KindIn (· ≠ .textStart)) :
    ∀ piece ∈ pieces [] text, piece.kind? ≠ none → piece.Whole := by
  generalize isTop : ([] : List Nat) = spans at faultless noStrings
  fun_induction pieces spans text with
  | case1 spans =>
    subst isTop
    intro piece mem
    cases mem
  | case2 spans start rest step ih =>
    subst isTop
    have noQuote : ∀ inner, start = '@' → rest ≠ '"' :: inner := by
      rintro inner rfl rfl
      have isFirst : .plain .textStart ['@', '"'] ∈ step.pieces := by
        rw [show step = _ from Step.next_quote [] inner, Step.stretch]
        split <;> exact List.mem_cons_self
      exact noStrings _ (List.mem_append_left _ isFirst) .textStart rfl rfl
    have isStep : step = Step.single (Cut.next false start rest) [] :=
      Step.next_other (.inr rfl) noQuote
    have isCut : (Cut.next false start rest).piece ∈ step.pieces := by
      rw [isStep]
      exact List.mem_singleton_self _
    have found := faultless _ (List.mem_append_left _ isCut)
    intro piece mem isToken
    rcases List.mem_append.mp mem with inStep | inRest
    · rw [isStep] at inStep
      rw [List.mem_singleton.mp inStep] at isToken ⊢
      exact Cut.next_whole found isToken
    · exact ih (by rw [isStep]; rfl)
        (fun piece mem => faultless piece (List.mem_append_right _ mem))
        (fun piece mem => noStrings piece (List.mem_append_right _ mem)) piece inRest isToken

/-- The tokens that layout keeps are known from what is known of the tokens but their places. -/
theorem Layout.settle_unplaced {first second : List Token}
    (same : first.map Token.unplaced = second.map Token.unplaced) :
    (settle first).map Token.unplaced = (settle second).map Token.unplaced := by
  have moved : ∀ tokens : List Token, (settle tokens).map Token.unplaced =
      (settle ((tokens.map Token.unplaced).map
        fun token => ⟨token.1, token.2.1, .start, token.2.2⟩)).map Token.unplaced := by
    intro tokens
    rw [List.map_map, settle_map, List.map_map]
    · rfl
    · exact fun _ => rfl
  rw [moved first, moved second, same]

theorem Kind.Thinned.mem {kept kinds : List Kind} {kind : Kind} (thinned : Thinned kept kinds)
    (noBreak : kind ≠ .lineEnd) (mem : kind ∈ kinds) : kind ∈ kept := by
  induction thinned with
  | nil => exact mem
  | keep other _ ih =>
    rcases List.mem_cons.mp mem with rfl | inRest
    · exact List.mem_cons_self
    · exact List.mem_cons_of_mem _ (ih inRest)
  | drop _ ih =>
    rcases List.mem_cons.mp mem with isBreak | inRest
    · exact absurd isBreak noBreak
    · exact ih inRest

/-- The texts of tokens with single blanks between them. -/
def spaced (tokens : List Token) : List Char :=
  [' '].intercalate (tokens.map fun token => token.lexeme.toList)

theorem spaced_cons_cons (first second : Token) (tokens : List Token) :
    spaced (first :: second :: tokens) =
      first.lexeme.toList ++ ' ' :: spaced (second :: tokens) := by
  simp [spaced, List.intercalate_cons_cons]

/-- A token is that of a piece that is cut off its own text. -/
def Token.Rereads (token : Token) : Prop :=
  ∃ piece : Piece,
    piece.Whole ∧
      piece.faults = [] ∧
      piece.text = token.lexeme.toList ∧
      piece.unplaced? = some token.unplaced

theorem pieces_spaced {tokens : List Token} (reread : ∀ token ∈ tokens, token.Rereads) :
    (∀ piece ∈ pieces [] (spaced tokens), piece.faults = []) ∧
      (pieces [] (spaced tokens)).filterMap Piece.unplaced? = tokens.map Token.unplaced := by
  induction tokens with
  | nil => simp [spaced, pieces, closing]
  | cons token tokens ih =>
    obtain ⟨piece, whole, faultless, isText, isToken⟩ := reread token List.mem_cons_self
    obtain ⟨faultlessRest, same⟩ :=
      ih fun other mem => reread other (List.mem_cons_of_mem _ mem)
    cases tokens with
    | nil =>
      have shape : spaced [token] = piece.text := by
        simp [spaced, isText]
      rw [shape, whole.pieces_eq]
      simp [faultless, isToken]
    | cons second tokens =>
      have isBlank : (Piece.gap [' ']).unplaced? = none := rfl
      rw [spaced_cons_cons, ← isText, whole.pieces_append faultless, List.filterMap_cons,
        List.filterMap_cons, isToken,
        isBlank, same]
      refine ⟨?_, rfl⟩
      intro other mem
      simp only [List.mem_cons] at mem
      rcases mem with rfl | rfl | inRest
      · exact faultless
      · rfl
      · exact faultlessRest other inRest

theorem Text.not_mem_unifyLineEnds (text : List Char) : '\r' ∉ unifyLineEnds text := by
  fun_induction unifyLineEnds text with
  | case1 => simp
  | case2 rest ih => simpa using ih
  | case3 rest _ ih => simpa using ih
  | case4 char rest _ noReturn ih =>
    simpa [Ne.symm noReturn] using ih

theorem not_mem_spaced {tokens : List Token}
    (noReturns : ∀ token ∈ tokens, '\r' ∉ token.lexeme.toList) : '\r' ∉ spaced tokens := by
  induction tokens with
  | nil => simp [spaced]
  | cons token tokens ih =>
    have here := noReturns token List.mem_cons_self
    have behind := ih fun other mem =>
      noReturns other (List.mem_cons_of_mem _ mem)
    cases tokens with
    | nil => simpa [spaced] using here
    | cons second tokens =>
      rw [spaced_cons_cons]
      simp [here, behind]

/-- The tokens of a text without faults and interpolated strings are cut off their own texts. -/
theorem rereads_of_settled {text : List Char}
    (faultless : ∀ piece ∈ pieces [] text, piece.faults = [])
    (noStrings : ∀ token ∈ (lexChars text).tokens, token.kind ≠ .textStart) :
    ∀ token ∈ Layout.settle (rawTokens text), token.Rereads := by
  have noOpening : ∀ piece ∈ pieces [] text, piece.KindIn (· ≠ .textStart) := by
    rintro piece mem _ isKind rfl
    have inKinds : .textStart ∈ (rawTokens text).map Token.kind := by
      rw [kinds_rawTokens]
      exact List.mem_filterMap.mpr ⟨piece, mem, isKind⟩
    have kept := (Layout.settle_thinned (rawTokens text)).mem (by decide) inKinds
    obtain ⟨token, inside, isStart⟩ := List.mem_map.mp kept
    exact noStrings token (List.mem_append_left _ inside) isStart
  intro token inside
  obtain ⟨⟨place, piece⟩, located, found⟩ := exists_located_of_settled inside
  have mem := Piece.mem_of_located located
  refine ⟨piece, ?_, faultless piece mem, (Piece.lexeme_token? found).symm, ?_⟩
  · apply pieces_whole faultless noOpening piece mem
    rw [Piece.kind_token? found]
    simp
  · rw [← Piece.unplaced?_eq piece place, found, Option.map_some]

/-- The texts of the tokens in front of the end of the input, with single blanks between them. -/
def Lexed.spaced (lexed : Lexed) : String :=
  " ".intercalate ((lexed.tokens.filter (·.kind ≠ .endOfInput)).map Token.lexeme)

theorem Lexed.toList_spaced (source : String) : (lex source).spaced.toList =
      ArrowScript.spaced (Layout.settle (rawTokens (Text.unifyLineEnds source.toList))) := by
  obtain ⟨front, last, shape, isLast, inner⟩ := lex_terminated source
  have isFront : front = Layout.settle (rawTokens (Text.unifyLineEnds source.toList)) :=
    (List.append_inj' (shape.symm.trans (lexChars_tokens _)) rfl).1
  have kept : (lex source).tokens.filter (·.kind ≠ .endOfInput) = front := by
    rw [shape, List.filter_append, List.filter_eq_self.mpr (by simpa using inner)]
    simp [isLast]
  rw [spaced, kept, isFront, String.toList_intercalate, List.map_map]
  rfl

/--
Layout does not matter.  Where the tokens of a source without errors are no part
of an interpolated string, their texts with single blanks between them have no
errors either, and they are cut into the same tokens, up to their places.
-/
theorem lex_spaced
    {source : String}
    (noErrors : (lex source).errors = [])
    (noStrings : ∀ token ∈ (lex source).tokens, token.kind ≠ .textStart) :
    (lex (lex source).spaced).errors = [] ∧
      (lex (lex source).spaced).tokens.map Token.unplaced =
        (lex source).tokens.map Token.unplaced := by
  have faultless := (lexChars_errors _).mp noErrors
  have reread := rereads_of_settled faultless noStrings
  have noReturn : '\r' ∉ (lex source).spaced.toList := by
    rw [Lexed.toList_spaced]
    refine not_mem_spaced fun token inside => ?_
    obtain ⟨item, located, found⟩ := exists_located_of_settled inside
    intro isReturn
    rw [Piece.lexeme_token? found] at isReturn
    apply Text.not_mem_unifyLineEnds source.toList
    rw [← textOf_pieces [] (Text.unifyLineEnds source.toList)]
    exact List.mem_flatMap.mpr ⟨item.2, Piece.mem_of_located located, isReturn⟩
  obtain ⟨stillFaultless, same⟩ := pieces_spaced reread
  rw [← Lexed.toList_spaced] at stillFaultless same
  have laidOut := Layout.settle_unplaced ((Piece.unplaced_located .start _).trans same)
  rw [Layout.settle_settle] at laidOut
  refine ⟨(lex_errors noReturn).mpr stillFaultless, ?_⟩
  have isLexed : lex (lex source).spaced = lexChars (lex source).spaced.toList :=
    congrArg lexChars (Text.unifyLineEnds_eq _ noReturn)
  rw [isLexed, lexChars_tokens, List.map_append, rawTokens, laidOut, lex, lexChars_tokens,
    List.map_append]
  rfl

/-- Comments, blank lines, line breaks inside of brackets and tokens that touch each other. -/
theorem spaced_lines_reread :
    (lex "@f(1..2, # one\r\n\n.5 ) ->>=## two ##-- >\n\n\"a\\n\" @ x").spaced =
        "@f ( 1 .. 2 , .5 ) -> >= - - > \n \"a\\n\" @ x" ∧
      (lex "@f ( 1 .. 2 , .5 ) -> >= - - > \n \"a\\n\" @ x").errors = [] ∧
      (lex "@f ( 1 .. 2 , .5 ) -> >= - - > \n \"a\\n\" @ x").tokens.map Token.unplaced =
        (lex "@f(1..2, # one\r\n\n.5 ) ->>=## two ##-- >\n\n\"a\\n\" @ x").tokens.map
          Token.unplaced := by
  have isSpaced :
      (lex "@f(1..2, # one\r\n\n.5 ) ->>=## two ##-- >\n\n\"a\\n\" @ x").spaced =
        "@f ( 1 .. 2 , .5 ) -> >= - - > \n \"a\\n\" @ x" := by
    decide +kernel
  refine ⟨isSpaced, ?_⟩
  rw [← isSpaced]
  exact lex_spaced (by decide +kernel) (by decide +kernel)

end ArrowScript

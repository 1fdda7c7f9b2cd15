import ArrowScript.Proofs.Text.Replacement
import ArrowScript.Proofs.Token.Embedding

namespace ArrowScript

/-!
# Interpolated strings

Any texts can be written between any expressions: doubled braces and escaped
quotes, backslashes and carriage returns keep a text from ending early, and the
tokens of an embedded expression are those that it has on its own.
-/

/-- How a character is written inside an interpolated string. -/
def escapeChar : Char → List Char
  | '{' => ['{', '{']
  | '}' => ['}', '}']
  | '\\' => ['\\', '\\']
  | '"' => ['\\', '"']
  | '\r' => ['\\', 'r']
  | character => [character]

/-- How a text is written inside an interpolated string. -/
def escape (text : List Char) : List Char :=
  text.flatMap escapeChar

/-- The text of an interpolated string behind its opening mark. -/
def templateTail (first : String) : List (String × String) → List Char
  | [] => escape first.toList ++ ['"']
  | (expr, text) :: spans =>
    escape first.toList ++ '{' :: (expr.toList ++ '}' :: templateTail text spans)

/-- An interpolated string: its first text, then embedded expressions with the texts behind them. -/
def template (first : String) (spans : List (String × String)) : String :=
  String.ofList ('@' :: '"' :: templateTail first spans)

namespace Quoted

theorem prepend_nil (quoted : Quoted) : quoted.prepend [] [] [] = quoted := by
  simp [prepend]

theorem prepend_prepend (quoted : Quoted) (raw decoded rawBefore decodedBefore : List Char) :
    (quoted.prepend raw decoded []).prepend rawBefore decodedBefore [] =
      quoted.prepend (rawBefore ++ raw) (decodedBefore ++ decoded) [] := by
  simp [prepend, Nat.add_assoc]

theorem interpolated_escapeChar (char : Char) (rest : List Char) :
    interpolated (escapeChar char ++ rest) =
      (interpolated rest).prepend (escapeChar char) [char] [] := by
  unfold escapeChar
  split
  · rfl
  · rfl
  · rfl
  · rfl
  · rfl
  · rename_i noOpening noClosing noEscape noQuote _
    apply interpolated_cons
    simp only [List.mem_cons, List.not_mem_nil, or_false, not_or]
    exact ⟨noQuote, noEscape, noOpening, noClosing⟩

/-- A written text is read back, up to what is behind it. -/
theorem interpolated_escape (text rest : List Char) :
    interpolated (escape text ++ rest) = (interpolated rest).prepend (escape text) text [] := by
  induction text with
  | nil => exact (prepend_nil _).symm
  | cons char text ih =>
    have shape :
        escape (char :: text) ++ rest = escapeChar char ++ (escape text ++ rest) := by
      simp [escape]
    rw [shape, interpolated_escapeChar, ih, prepend_prepend]
    rfl

end Quoted

def textPiece (text : String) : Piece :=
  ⟨escape text.toList, .token .text (.text text), []⟩

/-- The pieces of an interpolated string behind its opening mark. -/
def templatePieces (first : String) : List (String × String) → List Piece
  | [] => [textPiece first, .plain .textEnd ['"']]
  | (expr, text) :: spans =>
    textPiece first :: .gap ['{'] ::
      (pieces [] expr.toList ++ .gap ['}'] :: templatePieces text spans)

/-- A source can be embedded in an interpolated string. -/
structure Embeddable (source : String) : Prop where
  noErrors : (lex source).errors = []
  plain : ∀ character ∈ source.toList, character ∉ ['\n', '\r', '#']
  noBrace : source.toList.head? ≠ some '{'
  noEarlyClose : ∀ front, front <+: (lex source).tokens.map Token.kind →
    front.count .braceClose ≤ front.count .braceOpen
  closed : ((lex source).tokens.map Token.kind).count .braceClose =
    ((lex source).tokens.map Token.kind).count .braceOpen

/-- What is cut off a source that can be embedded. -/
structure CutsCleanly (text : List Char) : Prop where
  plain : ∀ character ∈ text, character ∉ ['#', '\n']
  noBrace : text.head? ≠ some '{'
  faultless : ∀ piece ∈ pieces [] text, piece.faults = []
  balanced : Kind.Balanced 0 ((pieces [] text).filterMap Piece.kind?)

variable (first : String)

theorem interpolated_last : Quoted.interpolated (templateTail first []) =
      ⟨escape first.toList, first.toList, [], .quote, []⟩ := by
  rw [templateTail, Quoted.interpolated_escape]
  simp [Quoted.interpolated, Quoted.prepend]

theorem interpolated_inFront {expr : String} (noBrace : expr.toList.head? ≠ some '{')
    (first text : String) (spans : List (String × String)) :
    Quoted.interpolated (templateTail first ((expr, text) :: spans)) =
      ⟨escape first.toList, first.toList, [], .brace,
        expr.toList ++ '}' :: templateTail text spans⟩ := by
  have single : (expr.toList ++ '}' :: templateTail text spans).head? ≠ some '{' := by
    cases shape : expr.toList with
    | nil => simp
    | cons start rest =>
      rw [shape] at noBrace
      exact noBrace
  rw [templateTail, Quoted.interpolated_escape, Quoted.interpolated_brace single]
  simp [Quoted.prepend]

/-- Behind an opening mark or the end of an embedded expression a template goes on as written. -/
theorem stretch_template (before : Piece) (first : String) (spans : List (String × String))
    (clean : ∀ span ∈ spans, CutsCleanly span.1.toList) :
    (Step.stretch before [] (templateTail first spans)).pieces ++
        pieces (Step.stretch before [] (templateTail first spans)).spans
          (Step.stretch before [] (templateTail first spans)).rest =
      before :: templatePieces first spans := by
  induction spans generalizing before first with
  | nil =>
    unfold Step.stretch
    rw [interpolated_last]
    simp [pieces, closing, templatePieces, textPiece]
  | cons span spans ih =>
    obtain ⟨expr, text⟩ := span
    obtain ⟨plain, noBrace, faultless, balanced⟩ := clean _ List.mem_cons_self
    have embedded :=
      pieces_embedded [] expr.toList 0 plain faultless balanced [] (templateTail text spans)
    have behind : pieces [0] ('}' :: templateTail text spans) =
        .gap ['}'] :: templatePieces text spans := by
      rw [pieces]
      exact ih (.gap ['}']) text fun span mem =>
        clean span (List.mem_cons_of_mem _ mem)
    rw [List.nil_append, behind] at embedded
    unfold Step.stretch
    rw [interpolated_inFront noBrace]
    simp only [embedded, templatePieces, textPiece, String.ofList_toList]
    rfl

variable (spans : List (String × String))

theorem pieces_template
    (clean : ∀ span ∈ spans, CutsCleanly span.1.toList) : pieces []
    (template first spans).toList =
      .plain .textStart ['@', '"'] :: templatePieces first spans := by
  rw [template, String.toList_ofList, pieces]
  exact stretch_template _ first spans clean

/-- Everything about a token but its place. -/
def Token.unplaced (token : Token) : Kind × String × TokenValue :=
  (token.kind, token.lexeme, token.value)

/-- The token of a piece without its place. -/
def Piece.unplaced? (piece : Piece) : Option (Kind × String × TokenValue) :=
  (piece.token? .start).map Token.unplaced

theorem Piece.unplaced?_eq (piece : Piece) (place : Position) :
    (piece.token? place).map Token.unplaced = piece.unplaced? := by
  obtain ⟨text, content, faults⟩ := piece
  cases content <;> rfl

theorem Piece.kind?_eq (piece : Piece) : piece.unplaced?.map Prod.fst = piece.kind? := by
  obtain ⟨text, content, faults⟩ := piece
  cases content <;> rfl

theorem Piece.unplaced_located (place : Position) (pieces : List Piece) :
    ((located place pieces).filterMap fun piece => piece.2.token? piece.1).map Token.unplaced =
      pieces.filterMap unplaced? := by
  rw [List.map_filterMap]
  induction pieces generalizing place with
  | nil => rfl
  | cons piece pieces ih =>
    rw [located, List.filterMap_cons, List.filterMap_cons, ih,
      Piece.unplaced?_eq]

theorem lex_unplaced {source : String} (noReturn : '\r' ∉ source.toList)
    (noBreaks : ∀ piece ∈ pieces [] source.toList, piece.KindIn (· ≠ .lineEnd)) :
    (lex source).tokens.map Token.unplaced =
      (pieces [] source.toList).filterMap Piece.unplaced? ++ [(.endOfInput, "", .none)] := by
  unfold lex lexChars
  rw [Text.unifyLineEnds_eq _ noReturn]
  simp only [List.map_append]
  rw [Layout.settle_eq, Piece.unplaced_located]
  · rfl
  · intro token mem
    obtain ⟨item, located, found⟩ := List.mem_filterMap.mp mem
    exact noBreaks item.2 (Piece.mem_of_located located) _ (Piece.kind_token? found)

theorem lexChars_errors (text : List Char) :
    (lexChars text).errors = [] ↔ ∀ piece ∈ pieces [] text, piece.faults = [] := by
  unfold lexChars
  simp only [List.flatMap_eq_nil_iff, Piece.errors, List.map_eq_nil_iff]
  constructor
  · intro faultless piece mem
    rw [← Piece.map_snd_located .start (pieces [] text)] at mem
    obtain ⟨item, located, rfl⟩ := List.mem_map.mp mem
    exact faultless item located
  · intro faultless item located
    exact faultless item.2 (Piece.mem_of_located located)

theorem lex_errors {source : String} (noReturn : '\r' ∉ source.toList) :
    (lex source).errors = [] ↔ ∀ piece ∈ pieces [] source.toList, piece.faults = [] := by
  rw [lex, Text.unifyLineEnds_eq _ noReturn, lexChars_errors]

/-- Braces that are closed in order, by counting them. -/
theorem Kind.balanced_of_counts (kinds : List Kind) (opened : Nat) (noEarlyClose :
      ∀ front, front <+: kinds → front.count .braceClose ≤ opened + front.count .braceOpen)
    (closed : kinds.count .braceClose = opened + kinds.count .braceOpen) :
    Balanced opened kinds := by
  induction kinds generalizing opened with
  | nil =>
    have isZero : opened = 0 := by simpa using closed.symm
    exact isZero
  | cons kind kinds ih =>
    have later : ∀ front, front <+: kinds →
        (kind :: front).count .braceClose ≤ opened + (kind :: front).count .braceOpen :=
      fun front isFront => noEarlyClose _ (List.cons_prefix_cons.mpr ⟨rfl, isFront⟩)
    simp only [List.count_cons] at later closed
    by_cases isOpen : kind = .braceOpen
    · subst isOpen
      apply ih (opened + 1)
      · intro front isFront
        have := later front isFront
        simp at this
        omega
      · simp at closed
        omega
    by_cases isClose : kind = .braceClose
    · subst isClose
      have here := later [] List.nil_prefix
      simp at here closed
      refine ⟨by omega, ih (opened - 1) ?_ (by omega)⟩
      intro front isFront
      have := later front isFront
      simp at this
      omega
    · rw [balanced_cons (by simp [isOpen, isClose, braces])]
      apply ih opened
      · intro front isFront
        simpa [isOpen, isClose] using later front isFront
      · simpa [isOpen, isClose] using closed

theorem spells_noLineEnd {start : Char} (noBreak : start ≠ '\n') :
    Spells (· ≠ .lineEnd) start where
  lineBreak isBreak := absurd isBreak noBreak

namespace Embeddable

variable {source : String}

variable (embeddable : Embeddable source)

include embeddable

theorem noReturn : '\r' ∉ source.toList :=
  fun mem => embeddable.plain _ mem (by decide)

theorem noLineEnd : ∀ piece ∈ pieces [] source.toList, piece.KindIn (· ≠ .lineEnd) := by
  refine pieces_kindIn (by decide) [] source.toList fun char mem => ?_
  exact spells_noLineEnd fun isBreak => embeddable.plain char mem (by simp [isBreak])

theorem tokens_unplaced : (lex source).tokens.map Token.unplaced =
      (pieces [] source.toList).filterMap Piece.unplaced? ++ [(.endOfInput, "", .none)] :=
  lex_unplaced embeddable.noReturn embeddable.noLineEnd

theorem kinds_eq : (lex source).tokens.map Token.kind =
      (pieces [] source.toList).filterMap Piece.kind? ++ [.endOfInput] := by
  have kinds := congrArg (List.map Prod.fst) embeddable.tokens_unplaced
  rw [List.map_map, List.map_append, List.map_filterMap] at kinds
  simp only [Piece.kind?_eq] at kinds
  exact kinds

theorem cutsCleanly : CutsCleanly source.toList where
  plain character member := by
    have := embeddable.plain character member
    simp_all
  noBrace := embeddable.noBrace
  faultless := (lex_errors embeddable.noReturn).mp embeddable.noErrors
  balanced := by
    have early := embeddable.noEarlyClose
    have closed := embeddable.closed
    rw [embeddable.kinds_eq] at early closed
    apply Kind.balanced_of_counts
    · intro front isFront
      simpa using early front (isFront.trans (List.prefix_append _ _))
    · simpa using closed

end Embeddable

/-- What the pieces between the marks and the pieces of the expressions have, a template has. -/
theorem templatePieces_forall (holds : Piece → Prop) (texts : ∀ text, holds (textPiece text))
    (gaps : ∀ text, holds (.gap text)) (closing : holds (.plain .textEnd ['"'])) (first : String)
    (spans : List (String × String))
    (exprs : ∀ span ∈ spans, ∀ piece ∈ pieces [] span.1.toList, holds piece) :
    ∀ piece ∈ templatePieces first spans, holds piece := by
  induction spans generalizing first with
  | nil =>
    intro piece mem
    simp only [templatePieces, List.mem_cons, List.not_mem_nil, or_false] at mem
    rcases mem with rfl | rfl
    · exact texts first
    · exact closing
  | cons span spans ih =>
    obtain ⟨expr, text⟩ := span
    intro piece mem
    simp only [templatePieces, List.mem_cons, List.mem_append] at mem
    rcases mem with rfl | rfl | inExpression | rfl | inRest
    · exact texts first
    · exact gaps _
    · exact exprs _ List.mem_cons_self piece inExpression
    · exact gaps _
    · refine ih text (fun span mem => ?_) piece inRest
      exact exprs span (List.mem_cons_of_mem _ mem)

theorem return_not_mem_escapeChar (char : Char) : '\r' ∉ escapeChar char := by
  unfold escapeChar
  split
  · decide
  · decide
  · decide
  · decide
  · decide
  · rename_i noReturn
    exact fun isReturn => noReturn (List.mem_singleton.mp isReturn).symm

theorem return_not_mem_escape (text : List Char) : '\r' ∉ escape text := by
  intro mem
  obtain ⟨char, _, isReturn⟩ := List.mem_flatMap.mp mem
  exact return_not_mem_escapeChar char isReturn

theorem return_not_mem_templateTail
    (noReturn : ∀ span ∈ spans, '\r' ∉ span.1.toList) :
      '\r' ∉ templateTail first spans := by
  induction spans generalizing first with
  | nil => simp [templateTail, return_not_mem_escape]
  | cons span spans ih =>
    obtain ⟨expr, text⟩ := span
    have inRest := ih text fun span mem =>
      noReturn span (List.mem_cons_of_mem _ mem)
    simp [templateTail, return_not_mem_escape, inRest, noReturn _ List.mem_cons_self]

/-- The token of a written text, without its place. -/
def textToken (text : String) : Kind × String × TokenValue :=
  (.text, String.ofList (escape text.toList), .text text)

/-- The tokens of a template without places: texts, and the tokens of the expressions between. -/
def templateTokens (first : String)
    (spans : List (String × String)) : List (Kind × String × TokenValue) :=
  (.textStart, "@\"", .none) :: textToken first ::
    (spans.flatMap fun span =>
      (lex span.1).tokens.dropLast.map Token.unplaced ++ [textToken span.2]) ++
    [(.textEnd, "\"", .none), (.endOfInput, "", .none)]

theorem templatePieces_unplaced
    (embeddable : ∀ span ∈ spans, Embeddable span.1) :
    (templatePieces first spans).filterMap Piece.unplaced? = textToken first ::
      (spans.flatMap fun span =>
        (lex span.1).tokens.dropLast.map Token.unplaced ++ [textToken span.2]) ++
      [(.textEnd, "\"", .none)] := by
  induction spans generalizing first with
  | nil => rfl
  | cons span spans ih =>
    obtain ⟨expr, text⟩ := span
    have inRest := ih text fun span mem =>
      embeddable span (List.mem_cons_of_mem _ mem)
    have inExpression := (embeddable _ List.mem_cons_self).tokens_unplaced
    rw [List.flatMap_cons, List.map_dropLast, inExpression, List.dropLast_concat]
    simp only [templatePieces, List.filterMap_cons, List.filterMap_append, inRest]
    simp [textPiece, Piece.unplaced?, Piece.token?, Piece.gap, textToken, Token.unplaced]

/--
Between any texts, sources without errors whose braces are balanced are read as
on their own; the texts are read back as they were before they were written.
-/
theorem lex_template
    (first : String)
    (spans : List (String × String))
    (embeddable : ∀ span ∈ spans, Embeddable span.1) :
    (lex (template first spans)).errors = [] ∧
      (lex (template first spans)).tokens.map Token.unplaced = templateTokens first spans := by
  have noReturn : '\r' ∉ (template first spans).toList := by
    have inTail := return_not_mem_templateTail first spans fun span member =>
      (embeddable span member).noReturn
    simp [template, inTail]
  have cut := pieces_template first spans fun span member => (embeddable span member).cutsCleanly
  constructor
  · rw [lex_errors noReturn, cut]
    refine List.forall_mem_cons.mpr ⟨rfl, ?_⟩
    exact templatePieces_forall (·.faults = []) (fun _ => rfl) (fun _ => rfl) rfl first spans
      fun span member => (embeddable span member).cutsCleanly.faultless
  · rw [lex_unplaced noReturn, cut, List.filterMap_cons,
      templatePieces_unplaced first spans embeddable]
    · simp [templateTokens, Piece.unplaced?, Piece.token?, Piece.plain, Token.unplaced]
    · rw [cut]
      refine List.forall_mem_cons.mpr ⟨Piece.kindIn_of_token (by decide), ?_⟩
      exact templatePieces_forall (Piece.KindIn (· ≠ .lineEnd))
        (fun _ => Piece.kindIn_of_token (by decide)) (fun _ => Piece.kindIn_of_blank)
        (Piece.kindIn_of_token (by decide)) first spans
        fun span member => (embeddable span member).noLineEnd

/-- Braces in the texts, a block and an interpolated string in the expression. -/
theorem lex_template_nested :
    (lex (template "\x7b" [("x \x7b@\"<\x7by\x7d>\"\x7d", "\x7d")])).errors = [] ∧
      (lex (template "\x7b" [("x \x7b@\"<\x7by\x7d>\"\x7d", "\x7d")])).tokens.map
          Token.unplaced =
        templateTokens "\x7b" [("x \x7b@\"<\x7by\x7d>\"\x7d", "\x7d")] := by
  refine lex_template _ _ fun span member => ?_
  cases List.mem_singleton.mp member
  have kinds : (lex "x \x7b@\"<\x7by\x7d>\"\x7d").tokens.map Token.kind =
      [.identifier, .braceOpen, .textStart, .text, .identifier, .text, .textEnd, .braceClose,
        .endOfInput] := by
    decide +kernel
  refine ⟨by decide +kernel, by simp, by decide, fun front isFront => ?_, by rw [kinds]; decide⟩
  rw [kinds] at isFront
  rw [List.prefix_iff_eq_take.mp isFront]
  have bounded : front.length < 10 := Nat.lt_succ_of_le isFront.length_le
  revert bounded
  generalize front.length = length
  revert length
  decide

end ArrowScript

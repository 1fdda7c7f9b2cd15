import ArrowScript.Proofs.Token.Interpolation
import ArrowScript.Proofs.Token.Placement

namespace ArrowScript

/-!
# How interpolated strings nest

The tokens of every text, also of one with errors, are whole interpolated
strings and other tokens, up to the end of the input.  In a string texts and
embedded items alternate, and the items are again strings and other tokens.
Nothing embedded holds a line end, and without errors the braces of embedded
items are balanced.

A text is cut from left to right with a memory of the embedded expressions that
are open.  So what is said of the tokens from some place on is how they finish
these expressions, innermost first, and the strings around them.
-/

/-- What is embedded in a string before a text: all tokens, and those outside of deeper strings. -/
structure Span where
  items : List Kind
  outside : List Kind

/-- An embedded span and the text behind it. -/
def Span.kinds (span : Span) : List Kind :=
  span.items ++ [.text]

/-- The kinds of the marks and texts of strings, and of the end of the input. -/
def Kind.framing : List Kind :=
  [.textStart, .text, .textEnd, .endOfInput]

/--
Strings and other tokens, with the tokens outside of all strings apart.  Each
span of a string obeys the law.
-/
inductive Items (law : Span → Prop) : (kinds outside : List Kind) → Prop
  | nil : Items law [] []
  | other {kind : Kind} {kinds outside : List Kind} : kind ∉ Kind.framing →
      Items law kinds outside → Items law (kind :: kinds) (kind :: outside)
  | string {spans : List Span} {kinds outside : List Kind} :
      (∀ span ∈ spans, Items law span.items span.outside) → (∀ span ∈ spans, law span) →
      Items law kinds outside →
      Items law (.textStart :: .text :: (spans.flatMap Span.kinds ++ .textEnd :: kinds)) outside

/--
A span without line ends.  In a `clean` text it has as many closing as opening
braces outside of deeper strings, and in front of no token more closing ones.
-/
structure Span.Orderly (clean : Prop) (span : Span) : Prop where
  noLineEnd : .lineEnd ∉ span.items
  even : clean → span.outside.count .braceClose = span.outside.count .braceOpen
  early : clean → ∀ front, front <+: span.outside →
    front.count .braceClose ≤ front.count .braceOpen

variable {clean : Prop}

/-- Spans that follow the grammar and are orderly. -/
structure Spans (clean : Prop) (spans : List Span) : Prop where
  items : ∀ span ∈ spans, Items (Span.Orderly clean) span.items span.outside
  orderly : ∀ span ∈ spans, span.Orderly clean

theorem Spans.nil : Spans clean [] :=
  ⟨by simp, by simp⟩

theorem Spans.cons {span : Span} {spans : List Span}
    (items : Items (Span.Orderly clean) span.items span.outside) (orderly : span.Orderly clean)
    (rest : Spans clean spans) : Spans clean (span :: spans) :=
  ⟨List.forall_mem_cons.mpr ⟨items, rest.items⟩,
    List.forall_mem_cons.mpr ⟨orderly, rest.orderly⟩⟩

theorem Spans.noLineEnd {spans : List Span} (lawful : Spans clean spans) :
    .lineEnd ∉ spans.flatMap Span.kinds := by
  intro mem
  obtain ⟨span, isSpan, inSpan⟩ := List.mem_flatMap.mp mem
  rcases List.mem_append.mp inSpan with inItems | isText
  · exact (lawful.orderly span isSpan).noLineEnd inItems
  · cases List.mem_singleton.mp isText

theorem Kind.counts_of_balanced {kinds : List Kind} {opened : Nat}
    (balanced : Balanced opened kinds) :
      kinds.count .braceClose = opened + kinds.count .braceOpen ∧
      ∀ front, front <+: kinds →
        front.count .braceClose ≤ opened + front.count .braceOpen := by
  induction kinds generalizing opened with
  | nil =>
    cases (show opened = 0 from balanced)
    refine ⟨rfl, fun front isFront => ?_⟩
    rw [List.prefix_nil.mp isFront]
    exact Nat.le_refl _
  | cons kind kinds ih =>
    -- One more brace open or closed in front changes each count by one.
    have counted :
        ∀ inner, Balanced inner kinds →
          inner + (if kind = .braceClose then 1 else 0) =
            opened + (if kind = .braceOpen then 1 else 0) →
          (kind :: kinds).count .braceClose = opened + (kind :: kinds).count .braceOpen ∧
            ∀ front, front <+: kind :: kinds →
              front.count .braceClose ≤ opened + front.count .braceOpen := by
      intro inner later step
      obtain ⟨even, early⟩ := ih later
      simp only [List.count_cons, beq_iff_eq]
      refine ⟨by omega, fun front isFront => ?_⟩
      rcases List.prefix_cons_iff.mp isFront with rfl | ⟨rest, rfl, isRest⟩
      · exact Nat.zero_le _
      · have inRest := early rest isRest
        simp only [List.count_cons, beq_iff_eq]
        omega
    by_cases isOpen : kind = .braceOpen
    · subst isOpen
      exact counted (opened + 1) balanced rfl
    by_cases isClose : kind = .braceClose
    · subst isClose
      obtain ⟨isOpen, later⟩ := balanced
      refine counted (opened - 1) later ?_
      simp
      omega
    · rw [balanced_cons (by simp [isOpen, isClose, braces])] at balanced
      exact counted opened balanced (by simp [isOpen, isClose])

/-- Items whose braces are closed in order are an orderly span. -/
theorem Span.orderly_of_balanced {span : Span} (noLineEnd : .lineEnd ∉ span.items)
    (balanced : clean → Kind.Balanced 0 span.outside) : span.Orderly clean where
  noLineEnd := noLineEnd
  even isClean := by
    simpa using (Kind.counts_of_balanced (balanced isClean)).1
  early isClean front isFront := by
    simpa using (Kind.counts_of_balanced (balanced isClean)).2 front isFront

/--
Tokens that finish the open embedded expressions, innermost first: the items
left in one, with the number of its open braces, then texts and spans up to the
end of its string, then what finishes the outer ones.
-/
inductive Finishes (clean : Prop) : (opened : List Nat) → List Kind → Prop
  | outermost {kinds outside : List Kind} : Items (Span.Orderly clean) kinds outside →
      Finishes clean [] kinds
  | span {depth : Nat} {outer : List Nat} {items outside kinds : List Kind} {spans : List Span} :
      Items (Span.Orderly clean) items outside → .lineEnd ∉ items →
      (clean → Kind.Balanced depth outside) → Spans clean spans →
        Finishes clean outer kinds →
      Finishes clean (depth :: outer)
        (items ++ .text :: (spans.flatMap Span.kinds ++ .textEnd :: kinds))

namespace Finishes

variable {opened outer : List Nat} {depth : Nat} {kind : Kind} {kinds : List Kind}

theorem other (noFrame : kind ∉ Kind.framing) (noLineEnd : opened ≠ [] → kind ≠ .lineEnd)
    (noBrace : opened ≠ [] → kind ∉ Kind.braces) (rest : Finishes clean opened kinds) :
    Finishes clean opened (kind :: kinds) := by
  cases rest with
  | outermost items => exact .outermost (.other noFrame items)
  | span items noBreaks balanced spans rest =>
    refine .span (.other noFrame items) ?_ ?_ spans rest
    · exact List.not_mem_cons_of_ne_of_not_mem (noLineEnd (List.cons_ne_nil _ _)).symm noBreaks
    · intro isClean
      exact (Kind.balanced_cons (noBrace (List.cons_ne_nil _ _)) _).mpr (balanced isClean)

theorem braceOpen (rest : Finishes clean ((depth + 1) :: outer) kinds) :
    Finishes clean (depth :: outer) (.braceOpen :: kinds) := by
  cases rest with
  | span items noBreaks balanced spans rest =>
    refine .span (.other (by decide) items) ?_ (fun isClean => balanced isClean) spans rest
    exact List.not_mem_cons_of_ne_of_not_mem (by decide) noBreaks

theorem braceClose (rest : Finishes clean (depth :: outer) kinds) :
    Finishes clean ((depth + 1) :: outer) (.braceClose :: kinds) := by
  cases rest with
  | span items noBreaks balanced spans rest =>
    refine .span (.other (by decide) items) ?_ ?_ spans rest
    · exact List.not_mem_cons_of_ne_of_not_mem (by decide) noBreaks
    · exact fun isClean => ⟨Nat.succ_ne_zero depth, balanced isClean⟩

theorem string {spans : List Span} (lawful : Spans clean spans)
    (rest : Finishes clean opened kinds) : Finishes clean opened
      (.textStart :: .text :: (spans.flatMap Span.kinds ++ .textEnd :: kinds)) := by
  cases rest with
  | outermost items => exact .outermost (.string lawful.items lawful.orderly items)
  | span items noBreaks balanced later rest =>
    have whole := Finishes.span (.string lawful.items lawful.orderly items) ?_ balanced later rest
    · simpa using whole
    · simp [noBreaks, lawful.noLineEnd]

/-- The innermost expression with its text is the first span of what is left of its string. -/
theorem exists_spans (rest : Finishes clean (0 :: outer) kinds) :
    ∃ spans later, kinds = spans.flatMap Span.kinds ++ .textEnd :: later ∧ Spans clean spans ∧
      Finishes clean outer later := by
  cases rest with
  | @span _ _ items outside later spans itemsLeft noBreaks balanced lawful rest =>
    have orderly : Span.Orderly clean ⟨items, outside⟩ :=
      Span.orderly_of_balanced noBreaks balanced
    refine ⟨⟨items, outside⟩ :: spans, later, ?_, .cons itemsLeft orderly lawful, rest⟩
    simp [Span.kinds]

theorem textStart (rest : Finishes clean (0 :: opened) kinds) :
    Finishes clean opened (.textStart :: .text :: kinds) := by
  obtain ⟨spans, later, rfl, lawful, rest⟩ := rest.exists_spans
  exact rest.string lawful

theorem text (rest : Finishes clean (0 :: outer) kinds) :
    Finishes clean (0 :: outer) (.text :: kinds) := by
  obtain ⟨spans, later, rfl, lawful, rest⟩ := rest.exists_spans
  exact .span .nil (by simp) (fun _ => rfl) lawful rest

theorem textEnd (noneOpen : clean → depth = 0) (rest : Finishes clean outer kinds) :
    Finishes clean (depth :: outer) (.text :: .textEnd :: kinds) :=
  .span .nil (by simp) noneOpen .nil rest

end Finishes

theorem spells_noFrame (start : Char) : Spells (· ∉ Kind.framing) start where
  lineBreak _ := by decide

/-- Inside an embedded expression no piece is a line end. -/
theorem Cut.next_embedded_kindIn (start : Char) (rest : List Char) :
    (Cut.next true start rest).piece.KindIn (· ≠ .lineEnd) := by
  by_cases isBreak : start = '\n'
  · subst isBreak
    have cut : Cut.next true '\n' rest = Cut.lineBreak true rest := by
      cases rest <;> rfl
    rw [cut]
    exact Piece.kindIn_of_blank
  · exact Cut.next_kindIn (spells_noLineEnd isBreak) true rest

/-- The kinds of the tokens among pieces. -/
def Piece.kindsOf (pieces : List Piece) : List Kind :=
  pieces.filterMap Piece.kind?

namespace Finishes

variable {spans : List Nat} {kinds : List Kind}

/-- A single piece that is no brace, and inside of a string no line end. -/
theorem piece {piece : Piece} (noFrame : piece.KindIn (· ∉ Kind.framing))
    (noLineEnd : spans ≠ [] → piece.KindIn (· ≠ .lineEnd))
    (noBrace : spans ≠ [] → piece.KindIn (· ∉ Kind.braces))
    (rest : Finishes clean spans kinds) :
    Finishes clean spans (Piece.kindsOf [piece] ++ kinds) := by
  unfold Piece.kindsOf
  rw [List.filterMap_cons]
  cases found : piece.kind? with
  | none => exact rest
  | some kind =>
    exact rest.other (noFrame kind found) (fun inside => noLineEnd inside kind found)
      (fun inside => noBrace inside kind found)

theorem stretch_behind_brace (before rest : List Char)
    (later : Finishes clean (Step.stretch (.gap before) spans rest).spans kinds) :
    Finishes clean (0 :: spans)
      (Piece.kindsOf (Step.stretch (.gap before) spans rest).pieces ++ kinds) := by
  unfold Step.stretch at later ⊢
  simp only at later ⊢
  split at later
  · exact later.textEnd fun _ => rfl
  · exact later.text
  · exact later.textEnd fun _ => rfl

theorem stretch_behind_mark (mark rest : List Char)
    (later : Finishes clean (Step.stretch (.plain .textStart mark) spans rest).spans kinds) :
    Finishes clean spans
      (Piece.kindsOf (Step.stretch (.plain .textStart mark) spans rest).pieces ++ kinds) := by
  unfold Step.stretch at later ⊢
  simp only at later ⊢
  split at later
  · exact later.string .nil
  · exact later.textStart
  · exact later.string .nil

theorem step (start : Char) (rest : List Char)
    (later : Finishes clean (Step.next spans start rest).spans kinds) :
    Finishes clean spans (Piece.kindsOf (Step.next spans start rest).pieces ++ kinds) := by
  induction spans, start, rest using Step.cases_next with
  | opens depth outer rest =>
    rw [Step.next_open] at later ⊢
    exact later.braceOpen
  | closes depth outer rest =>
    rw [Step.next_close] at later ⊢
    exact later.braceClose
  | ends outer rest => exact stretch_behind_brace ['}'] rest later
  | quote spans rest =>
    rw [Step.next_quote] at later ⊢
    exact stretch_behind_mark ['@', '"'] rest later
  | other spans start rest noBrace noQuote =>
    rw [Step.next_other noBrace noQuote] at later ⊢
    refine piece (Cut.next_kindIn (spells_noFrame start) _ rest) ?_ ?_ later
    · intro inside
      have embedded : (!spans.isEmpty) = true := by simpa using inside
      rw [embedded]
      exact Cut.next_embedded_kindIn start rest
    · intro inside
      exact Cut.next_kindIn (spells_noBrace (noBrace.resolve_right inside)) _ rest

/-- What closes the open expressions at the end of the input; such a text is not clean. -/
theorem closing (faultless : clean → ∀ piece ∈ ArrowScript.closing spans, piece.faults = []) :
    Finishes clean spans (Piece.kindsOf (ArrowScript.closing spans)) := by
  induction spans with
  | nil => exact .outermost .nil
  | cons depth outer ih =>
    have unclean : ¬ clean := fun isClean => by
      cases faultless isClean _ List.mem_cons_self
    exact (ih fun isClean => absurd isClean unclean).textEnd
      fun isClean => absurd isClean unclean

/-- The tokens of a text finish the expressions that are open in front of it. -/
theorem pieces (spans : List Nat) (text : List Char)
    (faultless : clean → ∀ piece ∈ ArrowScript.pieces spans text, piece.faults = []) :
    Finishes clean spans (Piece.kindsOf (ArrowScript.pieces spans text)) := by
  fun_induction ArrowScript.pieces spans text with
  | case1 spans => exact closing faultless
  | case2 spans start rest step ih =>
    have later := ih fun isClean piece mem =>
      faultless isClean piece (List.mem_append_right _ mem)
    have whole := Finishes.step start rest later
    unfold Piece.kindsOf at whole ⊢
    rwa [List.filterMap_append]

end Finishes

/-- Kinds with some of their line ends left out. -/
inductive Kind.Thinned : (kept kinds : List Kind) → Prop
  | nil : Thinned [] []
  | keep {kept kinds : List Kind} (kind : Kind) : Thinned kept kinds →
      Thinned (kind :: kept) (kind :: kinds)
  | drop {kept kinds : List Kind} : Thinned kept kinds → Thinned kept (.lineEnd :: kinds)

namespace Kind.Thinned

variable {kept kinds later : List Kind}

/-- Tokens that are no line ends are all kept. -/
theorem exists_append (noLineEnd : .lineEnd ∉ kinds) (thinned : Thinned kept (kinds ++ later)) :
    ∃ rest, kept = kinds ++ rest ∧ Thinned rest later := by
  induction kinds generalizing kept with
  | nil => exact ⟨kept, rfl, thinned⟩
  | cons kind kinds ih =>
    cases thinned with
    | keep _ thinned =>
      obtain ⟨rest, rfl, left⟩ :=
        ih (fun mem => noLineEnd (List.mem_cons_of_mem _ mem)) thinned
      exact ⟨rest, rfl, left⟩
    | drop _ => exact absurd List.mem_cons_self noLineEnd

end Kind.Thinned

theorem Layout.settle_thinned (tokens : List Token) :
    Kind.Thinned ((settle tokens).map Token.kind) (tokens.map Token.kind) := by
  rw [settle_eq_lay]
  generalize (none : Option Kind) = last
  fun_induction lay last tokens with
  | case1 => exact .nil
  | case2 _ token rest omitted ih =>
    rw [List.map_cons, omitted.1]
    exact .drop ih
  | case3 _ token rest _ ih => exact .keep token.kind ih

/-- Leaving out line ends keeps to the grammar: no string holds one. -/
theorem Items.thinned {kinds kept outside : List Kind}
    (items : Items (Span.Orderly clean) kinds outside) (thinned : Kind.Thinned kept kinds) :
    ∃ left, Items (Span.Orderly clean) kept left := by
  induction items generalizing kept with
  | nil =>
    cases thinned
    exact ⟨[], .nil⟩
  | @other kind kinds outside noFrame items ih =>
    cases thinned with
    | keep _ thinned =>
      obtain ⟨left, rest⟩ := ih thinned
      exact ⟨kind :: left, .other noFrame rest⟩
    | drop thinned => exact ih thinned
  | @string spans kinds outside inner orderly items _ ih =>
    have noLineEnd :
        .lineEnd ∉ .textStart :: .text :: (spans.flatMap Span.kinds ++ [.textEnd]) := by
      have inSpans := Spans.noLineEnd ⟨inner, orderly⟩
      simp [inSpans]
    have shape : .textStart :: .text :: (spans.flatMap Span.kinds ++ .textEnd :: kinds) =
        (.textStart :: .text :: (spans.flatMap Span.kinds ++ [.textEnd])) ++ kinds := by
      simp
    rw [shape] at thinned
    obtain ⟨rest, rfl, behind⟩ := thinned.exists_append noLineEnd
    obtain ⟨left, items⟩ := ih behind
    refine ⟨left, ?_⟩
    simpa using Items.string inner orderly items

theorem Piece.kinds_located (place : Position) (pieces : List Piece) :
    ((located place pieces).filterMap fun piece => piece.2.token? piece.1).map Token.kind =
      kindsOf pieces := by
  have same := congrArg (List.map Prod.fst) (unplaced_located place pieces)
  rw [List.map_map] at same
  refine same.trans ?_
  rw [List.map_filterMap]
  simp only [kind?_eq]
  rfl

theorem kinds_rawTokens (text : List Char) :
    (rawTokens text).map Token.kind = Piece.kindsOf (pieces [] text) :=
  Piece.kinds_located .start (pieces [] text)

/--
The tokens of every source are strings and other tokens, up to the end of the
input.  A string is an opening mark, a text, embedded items each with a text
behind them, and a closing mark; the items are again strings and other tokens,
without line ends, and with balanced braces if the source has no errors.
-/
theorem lex_nests (source : String) :
    ∃ items outside,
      (lex source).tokens.map Token.kind = items ++ [.endOfInput] ∧
        Items (Span.Orderly ((lex source).errors = [])) items outside := by
  have faultless : (lex source).errors = [] →
      ∀ piece ∈ pieces [] (Text.unifyLineEnds source.toList), piece.faults = [] :=
    (lexChars_errors _).mp
  have finishes := Finishes.pieces [] _ faultless
  cases finishes with
  | outermost items =>
    rw [← kinds_rawTokens] at items
    obtain ⟨outside, kept⟩ := items.thinned (Layout.settle_thinned _)
    refine ⟨_, outside, ?_, kept⟩
    rw [lex, lexChars_tokens, List.map_append]
    rfl

end ArrowScript

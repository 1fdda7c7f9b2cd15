import ArrowScript.Proofs.Token.Lines
import ArrowScript.Proofs.Token.Nesting

namespace ArrowScript

/-!
# What stands between tokens

In a text without errors nothing but blanks and comments stands between two
tokens, apart from the braces that part an embedded expression from the stretches
of text around it.
-/

/-- The characters that end a line comment; inside an embedded expression a brace is one. -/
def commentEnds (embedded : Bool) : List Char :=
  if embedded then ['\n', '}'] else ['\n']

/-- A blank or a comment, in front of the text `behind`. -/
inductive Filler (embedded : Bool) : (text behind : List Char) → Prop
  | character {character : Char} {behind : List Char} : character ∈ [' ', '\t', '\n'] →
      Filler embedded [character] behind
  | block {inside behind : List Char} : ¬ ['#', '#'] <:+: inside ++ ['#'] →
      Filler embedded (['#', '#'] ++ inside ++ ['#', '#']) behind
  | line {inside behind : List Char} : inside.head? ≠ some '#' →
      (∀ character ∈ inside, character ∉ commentEnds embedded) →
      (∀ character ∈ behind.head?, character ∈ commentEnds embedded) →
      Filler embedded ('#' :: inside) behind

/-- Blanks and comments one behind the other, in front of the text `behind`. -/
inductive Fillers (embedded : Bool) (behind : List Char) : List Char → Prop
  | nil : Fillers embedded behind []
  | cons {text rest : List Char} : Filler embedded text (rest ++ behind) →
      Fillers embedded behind rest → Fillers embedded behind (text ++ rest)

theorem endsComment_iff (embedded : Bool) (char : Char) :
    endsComment embedded char ↔ char ∈ commentEnds embedded := by
  cases embedded <;> simp [endsComment, commentEnds]

/-- A block comment is read up to the first pair of marks. -/
theorem blockComment_inside {text rest : List Char} (closed : (blockComment text).2 = some rest) :
    ∃ inside, (blockComment text).1 = inside ++ ['#', '#'] ∧
      ¬ ['#', '#'] <:+: inside ++ ['#'] := by
  fun_induction blockComment text with
  | case1 => cases closed
  | case2 => exact ⟨[], rfl, by decide⟩
  | case3 char text noPair inner ih =>
    obtain ⟨inside, shape, noMarks⟩ := ih closed
    refine ⟨char :: inside, by simp [inner, shape], ?_⟩
    have whole : inside ++ ['#', '#'] ++ rest = text := by
      have parts := blockComment_append text
      rwa [shape, show (blockComment text).2 = some rest from closed, Option.getD_some] at parts
    rw [List.cons_append, List.infix_cons_iff]
    rintro (isFirst | isLater)
    · obtain ⟨rfl, second⟩ := List.cons_prefix_cons.mp isFirst
      cases inside with
      | nil => exact noPair _ rfl whole.symm
      | cons first inside =>
        obtain ⟨rfl, -⟩ := List.cons_prefix_cons.mp second
        exact noPair _ rfl whole.symm
    · exact noMarks isLater

/-- What a faultless text starts with: a token, or a blank, which outside strings ends a line. -/
def Cut.Plain (embedded : Bool) (cut : Cut) : Prop :=
  (∃ kind, cut.piece.kind? = some kind ∧ kind ∉ .lineEnd :: Kind.framing) ∨
    (Filler embedded cut.piece.text cut.rest ∧
      cut.piece.kind? =
        if embedded = false ∧ cut.piece.text = ['\n'] then some .lineEnd else none)

theorem Cut.comment_plain {embedded : Bool} {rest : List Char}
    (faultless : (comment embedded rest).piece.faults = []) :
    (comment embedded rest).Plain embedded := by
  by_cases isBlock : rest.head? = some '#'
  · obtain ⟨inside, rfl⟩ := List.head?_eq_some_iff.mp isBlock
    cases isClosed : (blockComment inside).2 with
    | none => simp [comment, isClosed] at faultless
    | some rest =>
      obtain ⟨own, shape, noMarks⟩ := blockComment_inside isClosed
      simp only [comment, isClosed, shape]
      exact .inr ⟨.block noMarks, by simp [Piece.gap, Piece.kind?]⟩
  · rw [lineComment embedded isBlock]
    refine .inr ⟨.line ?_ ?_ ?_, by simp [Piece.gap, Piece.kind?]⟩
    · intro isMark
      obtain ⟨more, shape⟩ := List.head?_eq_some_iff.mp isMark
      obtain ⟨behind, rfl⟩ := shape ▸ List.takeWhile_prefix fun char =>
        !endsComment embedded char
      exact isBlock rfl
    · intro char inside
      have noEnd := List.mem_takeWhile_imp inside
      rw [← endsComment_iff]
      simpa using noEnd
    · intro char isFirst
      rw [← endsComment_iff]
      simpa using head?_dropWhile rest char isFirst

theorem Cut.next_plain {embedded : Bool} {start : Char} {rest : List Char} :
    (next embedded start rest).piece.faults = [] → (next embedded start rest).Plain embedded := by
  have pairs : ∀ second kind, Kind.ofPair? start second = some kind →
      kind ∉ .lineEnd :: Kind.framing := by
    intro second kind found
    unfold Kind.ofPair? at found
    split at found <;> cases found <;> decide
  have symbols : ∀ kind, Kind.ofSymbol? start = some kind →
      kind ∉ .lineEnd :: Kind.framing := by
    intro kind found
    unfold Kind.ofSymbol? at found
    split at found <;> cases found <;> decide
  have words : ∀ kind ∈ .identifier :: Kind.keywords.map Prod.snd,
      kind ∉ .lineEnd :: Kind.framing := by
    decide
  apply Cut.cases_next (motive := fun cut => cut.piece.faults = [] → cut.Plain embedded)
  case command =>
    intro _
    unfold command
    split <;> exact .inl ⟨_, rfl, by decide⟩
  case string => exact fun _ => .inl ⟨_, rfl, by decide⟩
  case pair => exact fun second kind _ isPair _ => .inl ⟨_, rfl, pairs second kind isPair⟩
  case name => exact fun _ => .inl ⟨_, rfl, words _ (Kind.ofWord_mem _)⟩
  case number =>
    simp only [number]
    split
    · exact fun _ => .inl ⟨_, rfl, by decide⟩
    · intro faultless
      cases faultless
  case symbol => exact fun kind isSymbol _ => .inl ⟨_, rfl, symbols kind isSymbol⟩
  case comment => exact fun _ => comment_plain
  case lineBreak =>
    rintro rfl _
    refine .inr ⟨.character (by simp), ?_⟩
    cases embedded <;> rfl
  case blank =>
    intro isBlank _
    have noBreak : start ≠ '\n' := by
      rintro rfl
      simp at isBlank
    refine .inr ⟨.character ?_, by simp [Piece.gap, Piece.kind?, noBreak]⟩
    simp only [List.mem_cons, List.not_mem_nil, or_false] at isBlank ⊢
    exact isBlank.elim .inl fun isTab => .inr (.inl isTab)
  case stray =>
    intro _ faultless
    cases faultless

/-- What comes next: anything, the text of a string, or what stands behind such a text. -/
inductive Part
  | script
  | text
  | behind
deriving DecidableEq

/-- The part that comes behind a token. -/
def Part.after (kind : Kind) : Part :=
  if kind = .textStart then .text else if kind = .text then .behind else .script

/-- How many strings are open that no embedded expression is counted for. -/
def Part.opened : Part → Nat
  | .script => 0
  | _ => 1

/-- The tokens that may come up in a part. -/
def Part.Allows : Part → Kind → Prop
  | .script, kind => kind ∉ [.lineEnd, .text, .textEnd, .endOfInput]
  | .text, kind => kind = .text
  | .behind, kind => kind = .textEnd

theorem Part.opened_after {part : Part} {kind : Kind} (allowed : part.Allows kind) :
    part.opened + [kind].count .textStart = (after kind).opened + [kind].count .textEnd := by
  cases part with
  | script =>
    have noText : kind ≠ .text ∧ kind ≠ .textEnd := by simp_all [Allows]
    by_cases isStart : kind = .textStart
    · rw [isStart]
      rfl
    · simp [after, opened, isStart, noText]
  | text => rw [show kind = .text from allowed]; rfl
  | behind => rw [show kind = .textEnd from allowed]; rfl

/-- The pieces of a faultless text and the end of the input, inside `depth` embedded expressions. -/
inductive Woven : (depth : Nat) → Part → List Piece → Prop
  | done : Woven 0 .script [.plain .endOfInput []]
  | token {depth : Nat} {part : Part} {piece : Piece} {kind : Kind} {rest : List Piece} :
      piece.kind? = some kind → part.Allows kind → Woven depth (.after kind) rest →
      Woven depth part (piece :: rest)
  | blank {depth : Nat} {piece : Piece} {rest : List Piece} :
      Filler (depth != 0) piece.text (Piece.textOf rest) →
      piece.kind? = (if depth = 0 ∧ piece.text = ['\n'] then some .lineEnd else none) →
      Woven depth .script rest → Woven depth .script (piece :: rest)
  | enter {depth : Nat} {rest : List Piece} : Woven (depth + 1) .script rest →
      Woven depth .behind (.gap ['{'] :: rest)
  | leave {depth : Nat} {rest : List Piece} : Woven depth .text rest →
      Woven (depth + 1) .script (.gap ['}'] :: rest)

namespace Woven

variable {depth : Nat} {part : Part} {piece : Piece} {spans : List Nat} {later : List Piece}

theorem stretch {before : Piece} {rest : List Char}
    (faultless : ∀ piece ∈ (Step.stretch before spans rest).pieces, piece.faults = [])
    (woven : Woven (Step.stretch before spans rest).spans.length .script later) :
    ∃ more, (Step.stretch before spans rest).pieces ++ later = before :: more ∧
      Woven spans.length .text more := by
  have ended := Step.ending_of_stretch (.inl faultless)
  unfold Step.stretch at woven ⊢
  simp only at woven ⊢
  split at woven
  · exact ⟨_, rfl, .token rfl rfl (.token rfl rfl woven)⟩
  · exact ⟨_, rfl, .token rfl rfl (.enter woven)⟩
  · exact absurd ‹_› ended

theorem step {start : Char} {rest : List Char}
    (faultless : ∀ piece ∈ (Step.next spans start rest).pieces, piece.faults = [])
    (isRest : Piece.textOf later = (Step.next spans start rest).rest)
    (woven : Woven (Step.next spans start rest).spans.length .script later) :
    Woven spans.length .script ((Step.next spans start rest).pieces ++ later) := by
  induction spans, start, rest using Step.cases_next with
  | opens depth outer rest =>
    rw [Step.next_open] at woven ⊢
    exact .token rfl (by simp [Part.Allows]) woven
  | closes depth outer rest =>
    rw [Step.next_close] at woven ⊢
    exact .token rfl (by simp [Part.Allows]) woven
  | ends outer rest =>
    obtain ⟨more, shape, inside⟩ := stretch faultless woven
    exact shape ▸ .leave inside
  | quote spans rest =>
    rw [Step.next_quote] at faultless woven ⊢
    obtain ⟨more, shape, inside⟩ := stretch faultless woven
    exact shape ▸ .token rfl (by simp [Part.Allows]) inside
  | other spans start rest noBrace noQuote =>
    rw [Step.next_other noBrace noQuote] at faultless isRest woven ⊢
    have depths : (!spans.isEmpty) = (spans.length != 0) := by
      cases spans <;> rfl
    rcases Cut.next_plain (faultless _ List.mem_cons_self) with ⟨kind, isKind, plain⟩ |
      ⟨isBlank, isKind⟩
    · have noText : kind ≠ .textStart ∧ kind ≠ .text ∧ Part.script.Allows kind := by
        simp_all [Kind.framing, Part.Allows]
      refine .token isKind noText.2.2 ?_
      rwa [Part.after, if_neg noText.1, if_neg noText.2.1]
    · refine .blank (isRest ▸ depths ▸ isBlank) (isKind.trans ?_) woven
      simp

theorem pieces (spans : List Nat) (text : List Char)
    (faultless : ∀ piece ∈ pieces spans text, piece.faults = []) :
    Woven spans.length .script (ArrowScript.pieces spans text ++ [.plain .endOfInput []]) := by
  fun_induction ArrowScript.pieces spans text with
  | case1 spans =>
    cases spans with
    | nil => exact .done
    | cons depth outer => cases faultless _ List.mem_cons_self
  | case2 spans start rest step ih =>
    rw [List.append_assoc]
    apply Woven.step
    · exact fun piece mem => faultless piece (List.mem_append_left _ mem)
    · rw [Piece.textOf, List.flatMap_append]
      exact (List.append_nil _).trans (textOf_pieces step.spans step.rest)
    · exact ih fun piece mem => faultless piece (List.mem_append_right _ mem)

theorem tail {rest : List Piece} (woven : Woven depth part (piece :: rest)) (goesOn : rest ≠ []) :
    ∃ later next, Woven later next rest ∧
      depth + part.opened + (Piece.kindsOf [piece]).count .textStart =
        later + next.opened + (Piece.kindsOf [piece]).count .textEnd ∧
      ∀ kind, piece.kind? = some kind → next = .after kind := by
  cases woven with
  | done => exact absurd rfl goesOn
  | @token _ _ _ kind _ isKind allowed woven =>
    have own : Piece.kindsOf [piece] = [kind] := by simp [Piece.kindsOf, isKind]
    refine ⟨depth, .after kind, woven, ?_, ?_⟩
    · rw [own, Nat.add_assoc, Nat.add_assoc, Part.opened_after allowed]
    · rintro other isOther
      rw [Option.some.inj (isKind.symm.trans isOther)]
  | blank _ isKind woven =>
    refine ⟨depth, .script, woven, ?_, ?_⟩
    · by_cases isBreak : depth = 0 ∧ piece.text = ['\n']
      · simp [Piece.kindsOf, isKind, isBreak]
      · simp [Piece.kindsOf, isKind, isBreak]
    · intro other isOther
      rw [isKind] at isOther
      split at isOther <;> cases isOther
      rfl
  | enter woven => exact ⟨depth + 1, .script, woven, rfl, nofun⟩
  | @leave depth _ woven => exact ⟨depth, .text, woven, rfl, nofun⟩

theorem drop {front rest : List Piece} (woven : Woven depth part (front ++ rest))
    (goesOn : rest ≠ []) : ∃ later next, Woven later next rest ∧
      depth + part.opened + (Piece.kindsOf front).count .textStart =
        later + next.opened + (Piece.kindsOf front).count .textEnd := by
  induction front generalizing depth part with
  | nil => exact ⟨depth, part, woven, rfl⟩
  | cons piece front ih =>
    obtain ⟨_, _, behind, counted, -⟩ := woven.tail (by simp [goesOn])
    obtain ⟨later, next, woven, countedOn⟩ := ih behind
    refine ⟨later, next, woven, ?_⟩
    have parts : Piece.kindsOf (piece :: front) = Piece.kindsOf [piece] ++ Piece.kindsOf front :=
      List.filterMap_append (l := [piece])
    rw [parts, List.count_append, List.count_append]
    omega

end Woven

/-- The brace that opens an embedded expression, behind a text, with no string end behind it. -/
def openingBrace (last : Option Kind) (kind : Kind) : List Char :=
  if last = some .text ∧ kind ≠ .textEnd then ['{'] else []

/-- The brace that ends an embedded expression, before a text that does not start its string. -/
def closingBrace (last : Option Kind) (kind : Kind) : List Char :=
  if last ≠ some .textStart ∧ kind = .text then ['}'] else []

namespace Woven

variable {between rest : List Piece} {kind : Kind}

/-- Where the text of a string comes next, nothing stands in front of it. -/
theorem between_text (woven : Woven depth .text (between ++ piece :: rest))
    (skipped : ∀ piece ∈ between, piece.KindIn (· = .lineEnd))
    (isKind : piece.kind? = some kind) :
    between = [] ∧ kind = .text := by
  cases between with
  | nil =>
    cases woven with
    | token isText allowed _ =>
      exact ⟨rfl, Option.some.inj (isKind.symm.trans isText) ▸ allowed⟩
  | cons first between =>
    cases woven with
    | token isText allowed _ => cases (skipped first List.mem_cons_self _ isText).symm.trans allowed

/-- Blanks and comments, and the brace that ends an embedded expression in front of a text. -/
theorem between_script (woven : Woven depth .script (between ++ piece :: rest))
    (skipped : ∀ piece ∈ between, piece.KindIn (· = .lineEnd))
    (isKind : piece.kind? = some kind) :
    kind ≠ .textEnd ∧ ∃ fill, Piece.textOf between = fill ++ closingBrace none kind ∧
      Fillers (depth != 0) (closingBrace none kind ++ Piece.textOf (piece :: rest)) fill := by
  induction between with
  | nil =>
    have noText : kind ∉ [.text, .textEnd] := by
      cases woven with
      | done => cases isKind; decide
      | token isOther allowed _ =>
        cases isKind.symm.trans isOther
        simp_all [Part.Allows]
      | blank _ isOther _ =>
        rw [isKind] at isOther
        split at isOther <;> cases isOther
        decide
      | leave _ => cases isKind
    simp only [List.mem_cons, List.not_mem_nil, or_false, not_or] at noText
    exact ⟨noText.2, [], by simp [Piece.textOf, closingBrace, noText], .nil⟩
  | cons first between ih =>
    obtain ⟨skippedFirst, skippedRest⟩ := List.forall_mem_cons.mp skipped
    generalize shape : between ++ piece :: rest = behind at woven
    rw [List.cons_append, shape] at woven
    cases woven with
    | done => simp at shape
    | token isOther allowed _ =>
      cases skippedFirst _ isOther
      simp [Part.Allows] at allowed
    | blank isBlank _ woven =>
      obtain ⟨noEnd, fill, isFill, blanks⟩ := ih (shape ▸ woven) skippedRest
      refine ⟨noEnd, first.text ++ fill, ?_, .cons ?_ blanks⟩
      · rw [List.append_assoc, ← isFill]
        rfl
      · have whole : Piece.textOf behind = Piece.textOf between ++
            Piece.textOf (piece :: rest) := by
          rw [← shape]
          exact List.flatMap_append
        rwa [← List.append_assoc, ← isFill, ← whole]
    | leave woven =>
      obtain ⟨rfl, rfl⟩ := between_text (shape ▸ woven) skippedRest isKind
      exact ⟨by decide, [], rfl, .nil⟩

theorem between_tokens {last : Option Kind}
    (woven : Woven depth (last.elim .script .after) (between ++ piece :: rest))
    (skipped : ∀ piece ∈ between, piece.KindIn (· = .lineEnd))
    (isKind : piece.kind? = some kind) :
    ∃ fill, Piece.textOf between = openingBrace last kind ++ fill ++ closingBrace last kind ∧
      Fillers (depth + (last.elim Part.script .after).opened != 0)
        (closingBrace last kind ++ Piece.textOf (piece :: rest)) fill := by
  by_cases isStart : last = some .textStart
  · subst isStart
    obtain ⟨rfl, rfl⟩ := between_text woven skipped isKind
    exact ⟨[], rfl, .nil⟩
  have closes : closingBrace last kind = closingBrace none kind := by simp [closingBrace, isStart]
  by_cases isText : last = some .text
  · subst isText
    cases between with
    | nil =>
      cases woven with
      | token isEnd allowed _ =>
        cases isKind.symm.trans isEnd
        cases (show kind = .textEnd from allowed)
        exact ⟨[], rfl, .nil⟩
      | enter _ => cases isKind
    | cons first between =>
      obtain ⟨skippedFirst, skippedRest⟩ := List.forall_mem_cons.mp skipped
      cases woven with
      | token isEnd allowed _ => cases (skippedFirst _ isEnd).symm.trans allowed
      | enter woven =>
        obtain ⟨noEnd, fill, isFill, blanks⟩ := between_script woven skippedRest isKind
        refine ⟨fill, ?_, closes ▸ blanks⟩
        rw [closes, openingBrace, if_pos ⟨rfl, noEnd⟩, List.append_assoc, ← isFill]
        rfl
  · have isScript : last.elim .script .after = Part.script := by
      cases last with
      | none => rfl
      | some last => simp_all [Part.after]
    rw [isScript] at woven ⊢
    obtain ⟨-, fill, isFill, blanks⟩ := between_script woven skipped isKind
    refine ⟨fill, ?_, closes ▸ blanks⟩
    rw [closes, openingBrace, if_neg (isText ·.1), isFill]
    rfl

end Woven

/-- The tokens of pieces, the first of them starting at `place`. -/
def Piece.tokensFrom (place : Position) (pieces : List Piece) : List Token :=
  (located place pieces).filterMap fun piece => piece.2.token? piece.1

theorem Piece.forall_tokensFrom {allowed : Kind → Prop} (place : Position) {pieces : List Piece} :
    (∀ token ∈ tokensFrom place pieces, allowed token.kind) ↔
      ∀ piece ∈ pieces, piece.KindIn allowed := by
  have kinds := kinds_located place pieces
  constructor
  · intro holds piece mem kind isKind
    have inKinds : kind ∈ kindsOf pieces := List.mem_filterMap.mpr ⟨piece, mem, isKind⟩
    rw [← kinds] at inKinds
    obtain ⟨token, inside, rfl⟩ := List.mem_map.mp inKinds
    exact holds token inside
  · intro holds token inside
    have inKinds : token.kind ∈ kindsOf pieces := kinds ▸ List.mem_map_of_mem inside
    obtain ⟨piece, mem, isKind⟩ := List.mem_filterMap.mp inKinds
    exact holds piece mem token.kind isKind

/-- A token is that of a piece; the tokens around it are those of the pieces around that. -/
theorem Piece.tokensFrom_split {place : Position} {pieces : List Piece} {before behind : List Token}
    {token : Token} (shape : tokensFrom place pieces = before ++ token :: behind) :
    ∃ front piece back, pieces = front ++ piece :: back ∧ tokensFrom place front = before ∧
      piece.token? (place.after (textOf front)) = some token ∧
      tokensFrom (place.after (textOf (front ++ [piece]))) back = behind := by
  induction pieces generalizing place before with
  | nil => simp [tokensFrom, located] at shape
  | cons first pieces ih =>
    have later : ∀ front : List Piece, place.after (textOf (first :: front)) =
        (place.after first.text).after (textOf front) :=
      fun front => Position.after_append place first.text (textOf front)
    rw [tokensFrom, located, List.filterMap_cons] at shape
    cases found : first.token? place with
    | none =>
      simp only [found] at shape
      obtain ⟨front, piece, back, rfl, isBefore, isToken, isBehind⟩ := ih shape
      refine ⟨first :: front, piece, back, rfl, ?_, (later front).symm ▸ isToken,
        (later (front ++ [piece])).symm ▸ isBehind⟩
      rw [tokensFrom, located, List.filterMap_cons, found]
      exact isBefore
    | some start =>
      simp only [found] at shape
      cases before with
      | nil =>
        obtain ⟨rfl, isBehind⟩ := List.cons.inj shape
        exact ⟨[], first, pieces, rfl, rfl, found, (later []).symm ▸ isBehind⟩
      | cons other before =>
        obtain ⟨rfl, isRest⟩ := List.cons.inj shape
        obtain ⟨front, piece, back, rfl, isBefore, isToken, isBehind⟩ := ih isRest
        refine ⟨first :: front, piece, back, rfl, ?_, (later front).symm ▸ isToken,
          (later (front ++ [piece])).symm ▸ isBehind⟩
        rw [tokensFrom, located, List.filterMap_cons, found]
        exact congrArg (List.cons start) isBefore

/-- What was cut off a text, and the end of the input. -/
def allPieces (text : List Char) : List Piece :=
  pieces [] text ++ [.plain .endOfInput []]

theorem textOf_allPieces (text : List Char) : Piece.textOf (allPieces text) = text := by
  rw [allPieces, Piece.textOf, List.flatMap_append]
  exact (List.append_nil _).trans (textOf_pieces [] text)

/-- The end of the input stays where it is. -/
theorem Layout.settle_concat {token : Token} (noBreak : token.kind ≠ .lineEnd)
    (keeps : token.kind.absorbsLineEnd = false) (tokens : List Token) :
    settle (tokens ++ [token]) = settle tokens ++ [token] := by
  have added : ∀ kept, add kept token = token :: kept := by
    intro kept
    cases kept <;> simp [add, noBreak, keeps]
  rw [settle, List.foldl_append, List.foldl_cons, added]
  exact List.reverse_cons

theorem lexChars_tokens_eq_lay (text : List Char) :
    (lexChars text).tokens = Layout.lay none (Piece.tokensFrom .start (allPieces text)) := by
  have whole : Piece.tokensFrom .start (allPieces text) =
      rawTokens text ++ [.endOfInput (Position.start.after text)] := by
    rw [Piece.tokensFrom, allPieces, Piece.located_append, List.filterMap_append, textOf_pieces]
    rfl
  rw [whole, ← Layout.settle_eq_lay]
  exact (Layout.settle_concat (by simp [Token.endOfInput]) rfl _).symm

/-- The characters between the last of the tokens `front` and `token`, or in front of `token`. -/
def gapBefore (text : List Char) (front : List Token) (token : Token) : List Char :=
  text.extract ((front.getLast?.map Token.stop).getD 0) token.start.offset

/-- More strings have started than ended. -/
def insideString (tokens : List Token) : Bool :=
  (tokens.map Token.kind).count .textEnd < (tokens.map Token.kind).count .textStart

/-- The pieces `skipped` stand between those of the tokens `front` and that of `token`. -/
structure Parted (text : List Char) (front : List Token) (token : Token)
    (ahead skipped : List Piece) (piece : Piece) (rest : List Piece) : Prop where
  whole : allPieces text = ahead ++ (skipped ++ piece :: rest)
  marks : ∀ kind ≠ .lineEnd, (Piece.kindsOf ahead).count kind =
    (front.map Token.kind).count kind
  last : (ahead = [] ∧ front.getLast? = none) ∨
    ∃ earlier last kind,
      ahead = earlier ++ [last] ∧
        last.kind? = some kind ∧
        front.getLast?.map Token.kind = some kind
  skips : ∀ piece ∈ skipped, piece.KindIn (· = .lineEnd)
  isKind : piece.kind? = some token.kind
  start : (Piece.textOf ahead).length = (front.getLast?.map Token.stop).getD 0
  stop : (Piece.textOf ahead).length + (Piece.textOf skipped).length = token.start.offset

section

variable {text : List Char} {front between back : List Token} {token : Token}

theorem skipped_of_lay {last : Option Kind} {place : Position} {pieces : List Piece}
    (shape : Layout.lay last (Piece.tokensFrom place pieces) = between ++ token :: back)
    (areBreaks : ∀ other ∈ between, other.kind = .lineEnd) :
    ∃ skipped piece rest behind, pieces = skipped ++ piece :: rest ∧
      (∀ piece ∈ skipped, piece.KindIn (· = .lineEnd)) ∧
      piece.token? (place.after (Piece.textOf skipped)) = some token ∧
      Layout.lay last (Piece.tokensFrom place skipped ++ token :: behind) =
        between ++ token :: back := by
  obtain ⟨before, behind, isWhole, -, same⟩ := Layout.lay_split shape
  obtain ⟨skipped, piece, rest, rfl, rfl, isToken, -⟩ := Piece.tokensFrom_split isWhole
  refine ⟨skipped, piece, rest, behind, rfl, ?_, isToken, isWhole ▸ shape⟩
  have none : between.filter (·.kind ≠ .lineEnd) = [] := by
    simpa [List.filter_eq_nil_iff] using areBreaks
  rw [none, List.filter_eq_nil_iff] at same
  rw [← Piece.forall_tokensFrom place]
  simpa using same

theorem count_kinds {first second : List Token} {kind : Kind}
    (same : first.filter (·.kind ≠ .lineEnd) = second.filter (·.kind ≠ .lineEnd))
    (noBreak : kind ≠ .lineEnd) :
    (first.map Token.kind).count kind = (second.map Token.kind).count kind := by
  have counted : ∀ tokens : List Token, (tokens.map Token.kind).count kind =
      ((tokens.filter (·.kind ≠ .lineEnd)).map Token.kind).count kind := by
    intro tokens
    induction tokens with
    | nil => rfl
    | cons token tokens ih =>
      by_cases isBreak : token.kind = .lineEnd
      · simpa [isBreak, noBreak.symm] using ih
      · simpa [isBreak, List.count_cons] using ih
  rw [counted first, counted second, same]

theorem exists_parted (shape : (lexChars text).tokens = front ++ (between ++ token :: back))
    (areBreaks : ∀ other ∈ between, other.kind = .lineEnd) :
    ∃ ahead skipped piece rest place behind, Parted text front token ahead skipped piece rest ∧
      Layout.lay (front.getLast?.map Token.kind)
          (Piece.tokensFrom place skipped ++ token :: behind) = between ++ token :: back := by
  rw [lexChars_tokens_eq_lay] at shape
  have offsets : ∀ parts : List Piece, (Position.start.after (Piece.textOf parts)).offset =
      (Piece.textOf parts).length :=
    fun parts => (Position.offset_after _ _).trans (Nat.zero_add _)
  rcases List.eq_nil_or_concat' front with rfl | ⟨earlier, last, rfl⟩
  · obtain ⟨skipped, piece, rest, behind, whole, skips, isToken, laid⟩ :=
      skipped_of_lay shape areBreaks
    refine ⟨[], skipped, piece, rest, .start, behind, ?_, laid⟩
    exact
      { whole, skips
        marks := fun _ _ => rfl
        last := .inl ⟨rfl, rfl⟩
        isKind := Piece.kind_token? isToken
        start := rfl
        stop := by rw [Piece.start_token? isToken, offsets]; exact Nat.zero_add _ }
  · rw [List.append_assoc] at shape
    obtain ⟨before, behindLast, isWhole, laidBehind, same⟩ := Layout.lay_split shape
    obtain ⟨ahead, lastPiece, later, whole, isBefore, isLast, isLater⟩ :=
      Piece.tokensFrom_split isWhole
    rw [← isLater] at laidBehind
    obtain ⟨skipped, piece, rest, behind, rfl, skips, isToken, laid⟩ :=
      skipped_of_lay laidBehind.symm areBreaks
    refine ⟨ahead ++ [lastPiece], skipped, piece, rest, _, behind, ?_, by simpa using laid⟩
    exact
      { skips
        whole := by rw [whole, List.append_assoc]; rfl
        marks := by
          intro kind noBreak
          rw [Piece.kindsOf, List.filterMap_append, ← Piece.kindsOf,
            ← Piece.kinds_located .start,
            ← Piece.tokensFrom, isBefore, List.count_append, List.map_append, List.count_append,
            count_kinds same noBreak]
          simp [Piece.kind_token? isLast]
        last := .inr ⟨ahead, lastPiece, last.kind, rfl, Piece.kind_token? isLast, by simp⟩
        isKind := Piece.kind_token? isToken
        start := by
          have length : lastPiece.text.length = last.lexeme.length := by
            rw [← Piece.lexeme_token? isLast, String.length_toList]
          rw [List.getLast?_concat, Option.map_some, Option.getD_some, Token.stop,
            Piece.start_token? isLast, offsets, ← length]
          simp [Piece.textOf]
        stop := by
          rw [Piece.start_token? isToken, Position.offset_after, offsets] }

theorem Parted.gapBefore_eq {ahead skipped rest : List Piece} {piece : Piece}
    (parted : Parted text front token ahead skipped piece rest) :
    gapBefore text front token = Piece.textOf skipped ∧
      text.drop token.start.offset = Piece.textOf (piece :: rest) := by
  have whole : text =
      Piece.textOf ahead ++ (Piece.textOf skipped ++ Piece.textOf (piece :: rest)) := by
    rw [← textOf_allPieces text, parted.whole]
    simp [Piece.textOf]
  rw [gapBefore, ← parted.start, ← parted.stop, List.extract_eq_take_drop,
    Nat.add_sub_cancel_left]
  constructor
  · rw [whole, List.drop_left, List.take_left]
  · rw [whole, ← List.append_assoc, ← List.length_append, List.drop_left]

theorem Parted.woven {ahead skipped rest : List Piece} {piece : Piece}
    (parted : Parted text front token ahead skipped piece rest)
    (faultless : ∀ piece ∈ pieces [] text, piece.faults = []) : ∃ depth,
      Woven depth ((front.getLast?.map Token.kind).elim .script .after)
        (skipped ++ piece :: rest) ∧
        (depth + ((front.getLast?.map Token.kind).elim Part.script .after).opened != 0) =
          insideString front := by
  have whole := Woven.pieces [] text faultless
  rw [← allPieces, parted.whole] at whole
  have counts := parted.marks
  rcases parted.last with ⟨rfl, none⟩ | ⟨earlier, last, kind, rfl, isLast, isKind⟩
  · obtain rfl : front = [] := List.getLast?_eq_none_iff.mp none
    exact ⟨0, whole, rfl⟩
  · rw [List.append_assoc] at whole
    obtain ⟨_, _, fromLast, before⟩ := whole.drop (by simp)
    obtain ⟨depth, part, woven, own, isPart⟩ := fromLast.tail (by simp)
    rw [isKind, Option.elim_some, ← isPart kind isLast]
    refine ⟨depth, woven, ?_⟩
    have parts : Piece.kindsOf (earlier ++ [last]) = Piece.kindsOf earlier ++
        Piece.kindsOf [last] :=
      List.filterMap_append
    rw [insideString, ← counts .textStart (by decide), ← counts .textEnd (by decide), parts,
      List.count_append, List.count_append, Bool.eq_iff_iff, bne_iff_ne, decide_eq_true_iff]
    have outermost : ([] : List Nat).length + Part.script.opened = 0 := rfl
    omega

end

/--
No character is skipped silently.  In a source without errors what stands in
front of a token, behind the token before it, is blanks and comments, with the
brace that opens an embedded expression in front of them and the brace that ends
it behind them.
-/
theorem lex_gaps_blank
    {source : String}
    {front back : List Token}
    {token : Token}
    (noErrors : (lex source).errors = [])
    (shape : (lex source).tokens = front ++ token :: back) :
    ∃ fill, gapBefore (unified source) front token =
      openingBrace (front.getLast?.map Token.kind) token.kind ++ fill ++
        closingBrace (front.getLast?.map Token.kind) token.kind ∧ Fillers (insideString front)
      (closingBrace (front.getLast?.map Token.kind) token.kind ++
        (unified source).drop token.start.offset) fill := by
  have isText : unified source = Text.unifyLineEnds source.toList :=
    (Text.unifyLineEnds_eq_replace _).symm
  obtain ⟨ahead, skipped, piece, rest, _, _, parted, -⟩ :=
    exists_parted (show (lex source).tokens = front ++ ([] ++ token :: back) from shape) (by simp)
  obtain ⟨depth, woven, inside⟩ := parted.woven ((lexChars_errors _).mp noErrors)
  obtain ⟨fill, isFill, blanks⟩ := woven.between_tokens parted.skips parted.isKind
  rw [isText, parted.gapBefore_eq.1, parted.gapBefore_eq.2, ← inside]
  exact ⟨fill, isFill, blanks⟩

/-- Comments that end at a break and at the brace before a text, and a brace in a comment. -/
theorem lex_gaps_blank_behind_name :
    (lex "@\"\x7bx # b\n##\x7d## #c\x7dd\"").errors = [] ∧
      (lex "@\"\x7bx # b\n##\x7d## #c\x7dd\"").tokens =
        (lex "@\"\x7bx # b\n##\x7d## #c\x7dd\"").tokens.take 3 ++
          ⟨.text, "d", ⟨18, 2, 10⟩, .text "d"⟩ ::
            (lex "@\"\x7bx # b\n##\x7d## #c\x7dd\"").tokens.drop 4 ∧
      ∃ fill,
        " # b\n##\x7d## #c\x7d".toList = fill ++ ['}'] ∧ Fillers true ['}', 'd', '"'] fill := by
  have noErrors : (lex "@\"\x7bx # b\n##\x7d## #c\x7dd\"").errors = [] := by decide +kernel
  have shape : (lex "@\"\x7bx # b\n##\x7d## #c\x7dd\"").tokens =
      (lex "@\"\x7bx # b\n##\x7d## #c\x7dd\"").tokens.take 3 ++
        ⟨.text, "d", ⟨18, 2, 10⟩, .text "d"⟩ ::
          (lex "@\"\x7bx # b\n##\x7d## #c\x7dd\"").tokens.drop 4 := by
    decide +kernel
  have last : ((lex "@\"\x7bx # b\n##\x7d## #c\x7dd\"").tokens.take 3).getLast?.map Token.kind =
      some .identifier := by
    decide +kernel
  have inside : insideString ((lex "@\"\x7bx # b\n##\x7d## #c\x7dd\"").tokens.take 3) :=
    by decide +kernel
  have behind : (unified "@\"\x7bx # b\n##\x7d## #c\x7dd\"").drop 18 =
    ['d', '"'] := by decide +kernel
  obtain ⟨fill, isFill, blanks⟩ := lex_gaps_blank noErrors shape
  rw [last] at isFill blanks
  rw [inside] at blanks
  refine ⟨noErrors, shape, fill, Eq.trans ?_ isFill, behind ▸ blanks⟩
  decide +kernel

end ArrowScript

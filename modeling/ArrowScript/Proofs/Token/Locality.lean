import ArrowScript.Proofs.Token.Stream
import Mathlib.Data.List.TakeWhile

namespace ArrowScript

/-!
# Cutting looks ahead by a character or two

A piece that something else than the end of the input ended is cut off its own
text, whatever stands behind it, as long as that does not go on with the piece:
nothing, a character that separates, or a text that starts like the one that
stood there.  The same holds of the pieces that one step cuts off.
-/

namespace Quoted

/-- What was read of a text, its ending with it. -/
def own (quoted : Quoted) : List Char :=
  quoted.raw ++ quoted.ending.text

/-- The same stretch in front of another rest. -/
def onto (quoted : Quoted) (rest : List Char) : Quoted :=
  { quoted with rest := rest }

variable {character : Char} {text later : List Char} {quoted : Quoted}

theorem own_prepend_append (quoted : Quoted) (raw decoded later : List Char)
    (faults : List (Nat × LexicalFault)) :
    (quoted.prepend raw decoded faults).own ++ later = raw ++ (quoted.own ++ later) := by
  simp [own, prepend]

theorem prependEscape_eq (character : Char) : ∃ decoded faults, ∀ quoted : Quoted,
      quoted.prependEscape character = quoted.prepend ['\\', character] decoded faults := by
  unfold prependEscape
  split <;> exact ⟨_, _, fun _ => rfl⟩

/-- A string literal that the end of the input ends has a fault and nothing behind it. -/
theorem string_unended (text : List Char) (unended : (string text).ending = .input) :
    (string text).faults ≠ [] ∧ (string text).rest = [] := by
  fun_induction string text <;> simp_all [prependEscape, prepend]
  split <;> simp_all

theorem interpolated_unended (text : List Char) (unended : (interpolated text).ending = .input) :
    (interpolated text).faults ≠ [] ∧ (interpolated text).rest = [] := by
  fun_induction interpolated text <;> simp_all [prependEscape, prepend]
  split <;> simp_all

theorem ne_of_cases {other : Char} {rest : List Char}
    (alone : character = other → rest = [] → False)
    (inFront : ∀ second more, character = other → rest = second :: more → False) :
    character ≠ other := by
  intro same
  cases rest with
  | nil => exact alone same rfl
  | cons second more => exact inFront second more same rfl

theorem string_cons
    (noQuote : character ≠ '"') (noEscape : character ≠ '\\') (rest : List Char) :
    string (character :: rest) = (string rest).prepend [character] [character] [] := by
  rw [string]
  · exact noQuote
  · exact fun isEscape _ => noEscape isEscape
  · exact fun _ _ isEscape _ => noEscape isEscape

/-- A string literal that is closed does not depend on the text behind it. -/
theorem string_onto (text later : List Char) (ended : (string text).ending ≠ .input) :
    string ((string text).own ++ later) = (string text).onto later := by
  fun_induction string text with
  | case1 => exact absurd rfl ended
  | case2 => rfl
  | case3 => exact absurd rfl ended
  | case4 character rest ih =>
    obtain ⟨decoded, faults, isPrepend⟩ := prependEscape_eq character
    rw [isPrepend] at ended ⊢
    rw [own_prepend_append, List.cons_append, List.cons_append, string, List.nil_append,
      ih ended, isPrepend]
    rfl
  | case5 character rest noQuote noEnd noEscape ih =>
    rw [own_prepend_append, List.cons_append, string_cons noQuote (ne_of_cases noEnd noEscape),
      List.nil_append, ih ended]
    rfl

theorem interpolated_cons (plain : character ∉ ['"', '\\', '{', '}']) (rest : List Char) :
    interpolated (character :: rest) = (interpolated rest).prepend [character] [character] [] := by
  simp only [List.mem_cons, List.not_mem_nil, or_false, not_or] at plain
  obtain ⟨noQuote, noEscape, noOpening, noClosing⟩ := plain
  rw [interpolated]
  · exact noQuote
  · exact fun isEscape _ => noEscape isEscape
  · exact fun _ _ isEscape _ => noEscape isEscape
  · exact fun _ isOpening _ => noOpening isOpening
  · exact noOpening
  · exact fun _ isClosing _ => noClosing isClosing
  · exact noClosing

theorem interpolated_brace {rest : List Char} (single : rest.head? ≠ some '{') :
    interpolated ('{' :: rest) = ⟨[], [], [], .brace, rest⟩ := by
  rw [interpolated]
  rintro inner rfl
  exact single rfl

/-- What ended is not empty, and starts with what the text started with. -/
theorem head?_own (ended : (interpolated text).ending ≠ .input) (later : List Char) :
    ((interpolated text).own ++ later).head? = text.head? := by
  have whole : (interpolated text).own ++ (interpolated text).rest = text :=
    source_interpolated text
  cases isOwn : (interpolated text).own with
  | nil => cases isEnding : (interpolated text).ending <;> simp_all [own, Ending.text]
  | cons first own =>
    rw [isOwn] at whole
    rw [← whole]
    rfl

/-- A stretch of text that ends does not depend on what follows, unless that doubles its brace. -/
theorem interpolated_onto (text later : List Char) (ended : (interpolated text).ending ≠ .input)
    (single : later.head? = some '{' → (interpolated text).rest.head? = some '{') :
    interpolated ((interpolated text).own ++ later) = (interpolated text).onto later := by
  fun_induction interpolated text with
  | case1 => exact absurd rfl ended
  | case2 => rfl
  | case3 => exact absurd rfl ended
  | case4 character rest ih =>
    obtain ⟨decoded, faults, isPrepend⟩ := prependEscape_eq character
    rw [isPrepend] at ended single ⊢
    rw [own_prepend_append, List.cons_append, List.cons_append, interpolated, List.nil_append,
      ih ended single, isPrepend]
    rfl
  | case5 rest ih | case7 rest ih =>
    rw [own_prepend_append, List.cons_append, List.cons_append, interpolated, List.nil_append,
      ih ended single]
    rfl
  | case6 rest noDouble =>
    have noBrace : later.head? ≠ some '{' := by
      intro isBrace
      obtain ⟨inner, shape⟩ := List.head?_eq_some_iff.mp (single isBrace)
      exact noDouble inner shape
    exact interpolated_brace noBrace
  | case8 rest noDouble ih =>
    rw [own_prepend_append, List.cons_append, List.nil_append, interpolated,
      ih ended single]
    · rfl
    · intro inner shape
      have isFirst := head?_own ended later
      rw [shape] at isFirst
      obtain ⟨inner, shape⟩ := List.head?_eq_some_iff.mp isFirst.symm
      exact noDouble inner shape
  | case9 character rest noQuote noEnd noEscape noDouble noOpening noDoubled noClosing
      ih =>
    have plain : character ∉ ['"', '\\', '{', '}'] := by
      simp only [List.mem_cons, List.not_mem_nil, or_false, not_or]
      exact ⟨noQuote, ne_of_cases noEnd noEscape, noOpening, noClosing⟩
    rw [own_prepend_append, List.cons_append, List.nil_append, interpolated_cons plain,
      ih ended single]
    rfl

end Quoted

/-- A character that no word, number or operator in front of it goes on with. -/
structure Separator (boundary : Char) : Prop where
  noWord : isWordChar boundary = false := by decide
  noDigit : boundary.isDigit = false := by decide
  noPoint : boundary ≠ '.' := by decide
  noPair : ∀ start, Kind.ofPair? start boundary = none := by
    intro start
    unfold Kind.ofPair?
    split <;> simp_all
  noQuote : boundary ≠ '"' := by decide
  noBrace : boundary ≠ '{' := by decide

theorem separator_brace : Separator '}' := {}

/-- Instead of what stood behind a piece: nothing, a separator, or what starts alike. -/
def Fits (later behind : List Char) : Prop :=
  (∀ boundary ∈ later.head?, Separator boundary) ∨
    (later.head? = behind.head? ∧ (later.tail.head? = some '.' ↔ behind.tail.head? = some '.'))

variable {start boundary : Char} {rest later behind : List Char}

theorem Fits.nil (behind : List Char) : Fits [] behind :=
  .inl (by simp)

theorem Fits.append (separator : Separator boundary) (behind later : List Char) :
    Fits (behind ++ boundary :: later) behind := by
  match behind with
  | [] => exact .inl (by simpa using separator)
  | [first] => exact .inr ⟨rfl, by simpa using separator.noPoint⟩
  | first :: second :: behind => exact .inr ⟨rfl, Iff.rfl⟩

/-- What neither a separator nor the old start has, the new start has not. -/
theorem Fits.head_eq_false (holds : Char → Bool) (fits : Fits later behind)
    (noSeparator : ∀ boundary, Separator boundary → holds boundary = false)
    (notBehind : ∀ character ∈ behind.head?, holds character = false) :
    ∀ character ∈ later.head?, holds character = false := by
  intro character isFirst
  rcases fits with separates | ⟨same, -⟩
  · exact noSeparator character (separates character isFirst)
  · exact notBehind character (same ▸ isFirst)

theorem takeWhile_onto (holds : Char → Bool) (text : List Char)
    (stops : ∀ character ∈ later.head?, holds character = false) :
    (text.takeWhile holds ++ later).takeWhile holds = text.takeWhile holds ∧
      (text.takeWhile holds ++ later).dropWhile holds = later := by
  have taken : ∀ character ∈ text.takeWhile holds, holds character :=
    fun _ mem => List.mem_takeWhile_imp mem
  rw [List.takeWhile_append_of_pos taken, List.dropWhile_append_of_pos taken]
  cases later with
  | nil => simp
  | cons first later => simp [stops first rfl]

theorem head?_dropWhile {holds : Char → Bool} (text : List Char) :
    ∀ character ∈ (text.dropWhile holds).head?, holds character = false := by
  intro character isFirst
  have stops := List.head?_dropWhile_not holds text
  rw [Option.mem_def.mp isFirst] at stops
  exact stops

theorem numeral_onto (fits : Fits later (numeral rest).2) :
    numeral ((numeral rest).1 ++ later) = ((numeral rest).1, later) := by
  fun_induction numeral rest with
  | case1 =>
    have stops := fits.head_eq_false (fun character => character.isDigit || character == '.')
      (fun boundary separator => by simp [separator.noDigit, separator.noPoint]) (by simp)
    cases later <;> simp_all [numeral]
  | case2 character rest goesOn inner ih =>
    have noPoint := fits.head_eq_false (· == '.')
      (fun boundary separator => by simp [separator.noPoint])
    have whole : inner.1 ++ inner.2 = rest := numeral_append rest
    have still : character.isDigit ||
        (character == '.' && (inner.1 ++ later).head? != some '.') := by
      cases shape : inner.1 with
      | nil =>
        rw [shape, List.nil_append] at whole
        rw [whole] at noPoint
        simp only [Bool.or_eq_true, Bool.and_eq_true] at goesOn
        rcases goesOn with isDigit | ⟨isPoint, single⟩
        · simp [isDigit]
        · cases later <;> cases rest <;> simp_all
      | cons second more =>
        rw [← whole, shape] at goesOn
        exact goesOn
    rw [List.cons_append, numeral, if_pos still, ih fits]
  | case3 character rest stops =>
    cases later with
    | nil => rfl
    | cons first later =>
      refine if_neg fun goesOn => ?_
      rcases fits with separates | ⟨same, second⟩
      · have separator := separates first rfl
        simp [separator.noDigit, separator.noPoint] at goesOn
      · cases Option.some.inj same
        rw [List.tail_cons, List.tail_cons] at second
        exact stops (by simpa [second] using goesOn)

theorem blockComment_ne_nil {text : List Char} (closed : (blockComment text).2 = some rest) :
    (blockComment text).1 ≠ [] := by
  fun_cases blockComment text <;> simp_all [blockComment]

theorem blockComment_onto {text : List Char} (later : List Char)
    (closed : (blockComment text).2 = some rest) :
    blockComment ((blockComment text).1 ++ later) = ((blockComment text).1, some later) := by
  fun_induction blockComment text with
  | case1 => cases closed
  | case2 => rfl
  | case3 character text noMarks inner ih =>
    have whole : inner.1 ++ inner.2.getD [] = text := blockComment_append text
    have stillNoMarks : ∀ more, character = '#' → inner.1 ++ later ≠ '#' :: more := by
      intro more isMark shape
      cases isInner : inner.1 with
      | nil => exact blockComment_ne_nil closed isInner
      | cons second more =>
        rw [isInner] at whole shape
        cases shape
        exact noMarks _ isMark whole.symm
    rw [List.cons_append, blockComment, ih closed]
    exact stillNoMarks

namespace Cut

theorem word_onto {content : List Char → Content}
    (fits : Fits later (rest.dropWhile isWordChar)) :
    word start (rest.takeWhile isWordChar ++ later) content =
      ⟨(word start rest content).piece, later⟩ := by
  have taken :=
    takeWhile_onto _ rest
      (fits.head_eq_false _ (fun _ separator => separator.noWord) (head?_dropWhile rest))
  simp only [word, taken]

theorem command_onto (fits : Fits later (command rest).rest) :
    command ((command rest).piece.text.tail ++ later) = ⟨(command rest).piece, later⟩ := by
  by_cases named : (rest.head?.map isWordChar).getD false
  · have isWord : command rest = word '@' rest _ := if_pos named
    rw [isWord] at fits ⊢
    have stillNamed : ((rest.takeWhile isWordChar ++ later).head?.map isWordChar).getD false := by
      cases rest with
      | nil => cases named
      | cons second rest => simp [show isWordChar second from named]
    exact (if_pos stillNamed).trans (word_onto fits)
  · have alone : command rest = ⟨.plain .atSign ['@'], rest⟩ := if_neg named
    rw [alone] at fits ⊢
    have stops := fits.head_eq_false isWordChar (fun _ separator => separator.noWord)
      (by cases rest <;> simp_all)
    refine if_neg (show ¬ (later.head?.map isWordChar).getD false from ?_)
    cases later <;> simp_all

theorem operator?_onto {front : List Char} (fits : Fits later behind)
    (noPair : operator? start (front ++ behind) = none) :
    operator? start (front ++ later) = none := by
  cases front with
  | cons second front => simpa [operator?] using noPair
  | nil =>
    have stops := fits.head_eq_false (fun second => (Kind.ofPair? start second).isSome)
      (fun boundary separator => by simp [separator.noPair])
      (by cases behind <;> simp_all [operator?])
    cases later <;> simp_all [operator?]

theorem number_onto (fits : Fits later (numeral rest).2) :
    number start ((numeral rest).1 ++ later) = ⟨(number start rest).piece, later⟩ := by
  simp only [number, numeral_onto fits]
  split <;> rfl

theorem string_onto (ended : (string rest).piece.faults = [] ∨ (string rest).rest ≠ [])
    (later : List Char) :
    string ((string rest).piece.text.tail ++ later) = ⟨(string rest).piece, later⟩ := by
  have isEnded : (Quoted.string rest).ending ≠ .input := by
    intro unended
    have bad := Quoted.string_unended rest unended
    simp [string, bad] at ended
  have inner := Quoted.string_onto rest later isEnded
  change string ((Quoted.string rest).own ++ later) = _
  simp only [string, inner]
  rfl

/-- A line comment goes on up to a character that ends it. -/
theorem lineComment (embedded : Bool) (noMark : rest.head? ≠ some '#') : comment embedded rest =
      ⟨.gap ('#' :: rest.takeWhile (fun character => !endsComment embedded character)),
        rest.dropWhile (fun character => !endsComment embedded character)⟩ := by
  unfold comment
  split
  · exact absurd rfl noMark
  · rfl

theorem comment_onto {embedded : Bool}
    (ended : (comment embedded rest).piece.faults = [] ∨ (comment embedded rest).rest ≠ [])
    (stops : (∀ character ∈ (comment embedded rest).rest.head?,
      endsComment embedded character) →
      ∀ character ∈ later.head?, endsComment embedded character) :
    comment embedded ((comment embedded rest).piece.text.tail ++ later) =
      ⟨(comment embedded rest).piece, later⟩ := by
  by_cases isBlock : rest.head? = some '#'
  · obtain ⟨inside, rfl⟩ := List.head?_eq_some_iff.mp isBlock
    cases closed : (blockComment inside).2 with
    | none => simp [comment, closed] at ended
    | some behind =>
      have shape : comment embedded ('#' :: inside) =
          ⟨.gap ('#' :: '#' :: (blockComment inside).1), behind⟩ := by
        simp [comment, closed]
      have inner := blockComment_onto later closed
      rw [shape]
      simp [comment, Piece.gap, inner]
  · rw [lineComment embedded isBlock] at stops ⊢
    have isEnd := stops fun character isFirst => by
      simpa using head?_dropWhile rest character isFirst
    have taken := takeWhile_onto (fun character => !endsComment embedded character) rest
      (show ∀ character ∈ later.head?, _ from fun character isFirst => by
        simp [isEnd character isFirst])
    have noMark :
        (rest.takeWhile (fun character => !endsComment embedded character) ++ later).head? ≠
          some '#' := by
      intro isMark
      have isFront : rest.takeWhile (fun character => !endsComment embedded character) <+: rest :=
        List.takeWhile_prefix _
      cases own : rest.takeWhile (fun character => !endsComment embedded character) with
      | nil =>
        rw [own] at isMark
        simpa [endsComment] using isEnd '#' isMark
      | cons first more =>
        rw [own] at isMark isFront
        obtain ⟨behind, rfl⟩ := isFront
        exact isBlock isMark
    change comment embedded
      (rest.takeWhile (fun character => !endsComment embedded character) ++ later) = _
    rw [lineComment embedded noMark, taken.1, taken.2]

theorem next_onto (embedded inside : Bool)
    (ended : (next embedded start rest).piece.faults = [] ∨
      (next embedded start rest).rest ≠ [])
    (fits : Fits later (next embedded start rest).rest)
    (same : start ∈ ['#', '\n'] → inside = embedded) (stops : start = '#' →
      (∀ character ∈ (next embedded start rest).rest.head?, endsComment embedded character) →
        ∀ character ∈ later.head?, endsComment embedded character) :
    next inside start ((next embedded start rest).piece.text.tail ++ later) =
      ⟨(next embedded start rest).piece, later⟩ := by
  by_cases isAt : start = '@'
  · subst isAt
    exact command_onto fits
  by_cases isQuote : start = '"'
  · subst isQuote
    exact string_onto ended later
  by_cases isComment : start = '#'
  · have shape : ∀ embedded text, next embedded '#' text = comment embedded text := by
      intro embedded text
      cases text <;> rfl
    subst isComment
    obtain rfl := same (by simp)
    rw [shape] at ended stops
    rw [shape, shape]
    exact comment_onto ended (stops rfl)
  by_cases isBreak : start = '\n'
  · have shape : ∀ embedded text, next embedded '\n' text = lineBreak embedded text := by
      intro embedded text
      cases text <;> rfl
    subst isBreak
    obtain rfl := same (by simp)
    rw [shape, shape]
    rfl
  unfold next at fits ⊢
  simp only [isAt, isQuote, isComment, isBreak, if_false] at fits ⊢
  cases pair : operator? start rest with
  | some cut =>
    cases rest with
    | nil => cases pair
    | cons second rest =>
      obtain ⟨kind, isPair, rfl⟩ := Option.map_eq_some_iff.mp pair
      simp [operator?, isPair, Piece.plain]
  | none =>
    simp only [pair] at fits ⊢
    by_cases isWord : isWordStart start
    · simp only [isWord, if_true] at fits ⊢
      rw [← @List.takeWhile_append_dropWhile _ isWordChar rest] at pair
      rw [show (name start rest).piece.text.tail = rest.takeWhile isWordChar from rfl,
        operator?_onto fits pair]
      exact word_onto fits
    by_cases isNumber : start == '.' || start.isDigit
    · simp only [isWord, isNumber, Bool.false_eq_true, if_true, if_false] at fits ⊢
      have own : (number start rest).piece.text.tail = (numeral rest).1 ∧
          (number start rest).rest = (numeral rest).2 := by
        simp only [number]
        split <;> exact ⟨rfl, rfl⟩
      rw [own.2] at fits
      rw [← numeral_append rest] at pair
      rw [own.1, operator?_onto fits pair]
      exact number_onto fits
    simp only [isWord, isNumber, Bool.false_eq_true, if_false] at fits ⊢
    -- What is left is a single character.
    have fitsRest : Fits later rest := by
      split at fits
      · exact fits
      · split at fits <;> exact fits
    have noPair : operator? start later = none :=
      operator?_onto fitsRest (show operator? start ([] ++ rest) = none from pair)
    cases Kind.ofSymbol? start with
    | some kind => simp [Piece.plain, noPair]
    | none =>
      by_cases isBlank : start == ' ' || start == '\t' <;> simp [isBlank, Piece.gap, noPair]

theorem tail_append_rest (embedded : Bool) (start : Char) (rest : List Char) :
    (next embedded start rest).piece.text.tail ++ (next embedded start rest).rest = rest := by
  have whole := congrArg List.tail (source_next embedded start rest)
  rwa [source, List.tail_append_of_ne_nil (text_next_ne_nil embedded start rest)] at whole

theorem next_brace (embedded : Bool) (rest : List Char) :
    next embedded '{' rest = ⟨.plain .braceOpen ['{'], rest⟩ ∧
      next embedded '}' rest = ⟨.plain .braceClose ['}'], rest⟩ := by
  cases rest <;> exact ⟨rfl, rfl⟩

end Cut

namespace Step

variable {spans : List Nat}

theorem next_open (depth : Nat) (outer : List Nat) (rest : List Char) :
    next
      (depth :: outer) '{' rest = ⟨[.plain .braceOpen ['{']], (depth + 1) :: outer, rest⟩ := by
  have shape : next (depth :: outer) '{' rest =
      single (Cut.next true '{' rest) ((depth + 1) :: outer) := by
    cases depth <;> rfl
  rw [shape, (Cut.next_brace true rest).1]
  rfl

theorem next_close (depth : Nat) (outer : List Nat) (rest : List Char) :
    next ((depth + 1) :: outer) '}' rest =
      ⟨[.plain .braceClose ['}']], depth :: outer, rest⟩ := by
  have shape : next ((depth + 1) :: outer) '}' rest =
      single (Cut.next true '}' rest) (depth :: outer) := rfl
  rw [shape, (Cut.next_brace true rest).2]
  rfl

theorem next_quote (spans : List Nat) (rest : List Char) :
    next spans '@' ('"' :: rest) = stretch (.plain .textStart ['@', '"']) spans rest := by
  cases spans with
  | nil => rfl
  | cons depth outer => cases depth <;> rfl

theorem next_other (noBrace : start ∉ ['{', '}'] ∨ spans = [])
    (noQuote : ∀ inner, start = '@' → rest ≠ '"' :: inner) :
    next spans start rest = single (Cut.next (!spans.isEmpty) start rest) spans := by
  unfold next
  split
  · simp at noBrace
  · simp at noBrace
  · simp at noBrace
  · exact absurd rfl (noQuote _ rfl)
  · rfl

/-- What fits behind a piece opens no interpolated string with it. -/
theorem noQuote_onto {own : List Char} (fits : Fits later behind)
    (noQuote : ∀ inner, start = '@' → own ++ behind ≠ '"' :: inner) :
    ∀ inner, start = '@' → own ++ later ≠ '"' :: inner := by
  intro inner isAt shape
  cases own with
  | cons second own =>
    cases shape
    exact noQuote _ isAt rfl
  | nil =>
    have isFirst : later.head? = some '"' := congrArg List.head? shape
    rcases fits with separates | ⟨same, -⟩
    · exact absurd rfl (separates '"' isFirst).noQuote
    · obtain ⟨more, isBehind⟩ := List.head?_eq_some_iff.mp (same.symm.trans isFirst)
      exact noQuote more isAt isBehind

/-- A step counts a brace, ends an embedded expression, opens a string or cuts off one piece. -/
theorem cases_next {motive : List Nat → Char → List Char → Prop}
    (opens : ∀ depth outer rest, motive (depth :: outer) '{' rest)
    (closes : ∀ depth outer rest, motive ((depth + 1) :: outer) '}' rest)
    (ends : ∀ outer rest, motive (0 :: outer) '}' rest)
    (quote : ∀ spans rest, motive spans '@' ('"' :: rest))
    (other : ∀ spans start rest, (start ∉ ['{', '}'] ∨ spans = []) →
      (∀ inner, start = '@' → rest ≠ '"' :: inner) → motive spans start rest)
    (spans : List Nat) (start : Char) (rest : List Char) : motive spans start rest := by
  by_cases isQuote : start = '@' ∧ ∃ inner, rest = '"' :: inner
  · obtain ⟨rfl, inner, rfl⟩ := isQuote
    exact quote spans inner
  have noQuote : ∀ inner, start = '@' → rest ≠ '"' :: inner :=
    fun inner isAt isRest => isQuote ⟨isAt, inner, isRest⟩
  cases spans with
  | nil => exact other [] start rest (.inr rfl) noQuote
  | cons depth outer =>
    by_cases isOpen : start = '{'
    · exact isOpen ▸ opens depth outer rest
    by_cases isClose : start = '}'
    · cases depth with
      | zero => exact isClose ▸ ends outer rest
      | succ depth => exact isClose ▸ closes depth outer rest
    · exact other _ start rest (.inl (by simp [isOpen, isClose])) noQuote

/-- The same pieces inside further embedded expressions and in front of another rest. -/
def onto (step : Step) (outer : List Nat) (rest : List Char) : Step :=
  ⟨step.pieces, step.spans ++ outer, rest⟩

theorem rest_stretch (before : Piece) (spans : List Nat) (rest : List Char) :
    (stretch before spans rest).rest = (Quoted.interpolated rest).rest := by
  unfold stretch
  simp only
  split <;> rfl

theorem textOf_stretch (before : Piece) (spans : List Nat) (rest : List Char) :
    Piece.textOf (stretch before spans rest).pieces =
      before.text ++ (Quoted.interpolated rest).own := by
  unfold stretch
  simp only
  split <;> rename_i isEnding <;>
    simp [Piece.textOf, Quoted.own, isEnding, Ending.text, Piece.plain, Piece.gap]

theorem ending_of_stretch {before : Piece}
    (ended : (∀ piece ∈ (stretch before spans rest).pieces, piece.faults = []) ∨
      (stretch before spans rest).rest ≠ []) :
    (Quoted.interpolated rest).ending ≠ .input := by
  intro unended
  obtain ⟨faulty, nothing⟩ := Quoted.interpolated_unended rest unended
  rcases ended with faultless | something
  · refine faulty (faultless ⟨(Quoted.interpolated rest).raw,
      .token .text (.text (String.ofList (Quoted.interpolated rest).decoded)), _⟩ ?_)
    unfold stretch
    simp only
    split <;> simp
  · exact something ((rest_stretch ..).trans nothing)

theorem stretch_onto (before : Piece) (spans outer : List Nat)
    (ended : (Quoted.interpolated rest).ending ≠ .input)
    (fits : Fits later (stretch before spans rest).rest) :
    stretch before (spans ++ outer) ((Quoted.interpolated rest).own ++ later) =
      (stretch before spans rest).onto outer later := by
  rw [rest_stretch] at fits
  have single : later.head? = some '{' → (Quoted.interpolated rest).rest.head? = some '{' := by
    intro isBrace
    rcases fits with separates | ⟨same, -⟩
    · exact absurd rfl (separates '{' isBrace).noBrace
    · exact same ▸ isBrace
  have inner := Quoted.interpolated_onto rest later ended single
  unfold stretch
  rw [inner]
  simp only [Quoted.onto]
  split <;> rfl

/-- A step that ended is taken on the texts of its own pieces, whatever stands behind them. -/
theorem next_onto (ended : (∀ piece ∈ (next spans start rest).pieces, piece.faults = []) ∨
      (next spans start rest).rest ≠ [])
    (fits : Fits later (next spans start rest).rest) (stops :
      (∀ character ∈ (next spans start rest).rest.head?,
        endsComment (!spans.isEmpty) character) →
        ∀ character ∈ later.head?, endsComment (!spans.isEmpty) character) :
    next spans start ((Piece.textOf (next spans start rest).pieces).tail ++ later) =
      (next spans start rest).onto [] later := by
  induction spans, start, rest using cases_next with
  | opens depth outer rest =>
    simp only [next_open, onto, List.append_nil]
    rfl
  | closes depth outer rest =>
    simp only [next_close, onto, List.append_nil]
    rfl
  | ends outer rest =>
    have inner := stretch_onto (.gap ['}']) outer [] (ending_of_stretch ended) fits
    rw [List.append_nil] at inner
    rw [show next (0 :: outer) '}' rest = stretch (.gap ['}']) outer rest from rfl, textOf_stretch]
    exact inner
  | quote spans rest =>
    rw [next_quote] at ended fits ⊢
    have inner :=
      stretch_onto (.plain .textStart ['@', '"']) spans [] (ending_of_stretch ended) fits
    rw [List.append_nil] at inner
    rw [textOf_stretch]
    exact (next_quote spans _).trans inner
  | other spans start rest noBrace noQuote =>
    rw [next_other noBrace noQuote] at ended fits stops ⊢
    have inner := Cut.next_onto _ _ (by simpa [single] using ended) fits (fun _ => rfl)
      (fun _ => stops)
    rw [← Cut.tail_append_rest (!spans.isEmpty) start rest] at noQuote
    rw [single, onto, Piece.textOf, List.flatMap_singleton,
      next_other noBrace (noQuote_onto fits noQuote), inner, single, List.append_nil]

theorem textOf_next_ne_nil (spans : List Nat) (start : Char) (rest : List Char) :
    Piece.textOf (next spans start rest).pieces ≠ [] := by
  intro nothing
  have whole := congrArg List.length (source_next spans start rest)
  have shorter := length_rest_next_lt spans start rest
  rw [source, nothing, List.nil_append] at whole
  omega

end Step

/-- What a step that ended cuts off is cut off its own text, whatever stands behind that. -/
theorem pieces_onto {spans : List Nat} {start : Char} {rest later : List Char}
    (ended : (∀ piece ∈ (Step.next spans start rest).pieces, piece.faults = []) ∨
      (Step.next spans start rest).rest ≠ [])
    (fits : Fits later (Step.next spans start rest).rest)
    (stops : (∀ character ∈ (Step.next spans start rest).rest.head?,
        endsComment (!spans.isEmpty) character) →
      ∀ character ∈ later.head?, endsComment (!spans.isEmpty) character) :
    pieces spans (Piece.textOf (Step.next spans start rest).pieces ++ later) =
      (Step.next spans start rest).pieces ++ pieces (Step.next spans start rest).spans later := by
  have inner := Step.next_onto ended fits stops
  have whole := Step.source_next spans start rest
  obtain ⟨first, own, shape⟩ := List.exists_cons_of_ne_nil
    (Step.textOf_next_ne_nil spans start rest)
  rw [Step.source, shape, List.cons_append] at whole
  rw [shape, List.tail_cons] at inner
  obtain rfl := (List.cons.inj whole).1
  rw [shape, List.cons_append, pieces, inner, Step.onto, List.append_nil]

end ArrowScript

import ArrowScript.Proofs.Token.Spacing

namespace ArrowScript

/-!
# Characters that start nothing

A character that no piece starts with is a fault of its own and contributes
nothing.  What is cut off in front of it ends at it, and does not look past it,
just as it ends at a blank and does not look past that.  So a blank in its place
leaves all the other pieces as they are, where they are.
-/

/-- The piece of a character that starts nothing. -/
def Piece.stray (char : Char) : Piece :=
  ⟨[char], .blank, [(0, .unexpectedCharacter char)]⟩

/-- The fault of a character that starts nothing is none of these. -/
def NoStray (faults : List (Nat × LexicalFault)) : Prop :=
  ∀ offset char, (offset, .unexpectedCharacter char) ∉ faults

theorem NoStray.nil : NoStray [] := by
  intro offset char mem
  cases mem

theorem NoStray.moved {faults : List (Nat × LexicalFault)} (noStray : NoStray faults)
    (move : Nat → Nat) : NoStray (faults.map fun fault => (move fault.1, fault.2)) := by
  intro offset char mem
  obtain ⟨⟨earlier, fault⟩, inside, same⟩ := List.mem_map.mp mem
  cases same
  exact noStray earlier char inside

namespace Quoted

theorem noStray_prepend {quoted : Quoted} {raw decoded : List Char}
    {faults : List (Nat × LexicalFault)} (before : NoStray faults)
    (inner : NoStray quoted.faults) :
    NoStray (quoted.prepend raw decoded faults).faults := by
  intro offset char mem
  rcases List.mem_append.mp mem with isBefore | isInner
  · exact before offset char isBefore
  · exact inner.moved (raw.length + ·) offset char isInner

theorem noStray_prependEscape {quoted : Quoted} (escaped : Char) (inner : NoStray quoted.faults) :
    NoStray (quoted.prependEscape escaped).faults := by
  unfold prependEscape
  split
  · exact noStray_prepend .nil inner
  · exact noStray_prepend (by simp [NoStray]) inner

theorem noStray_string (text : List Char) : NoStray (string text).faults := by
  fun_induction string text with
  | case1 => simp [NoStray]
  | case2 => exact .nil
  | case3 => simp [NoStray]
  | case4 escaped _ ih => exact noStray_prependEscape escaped ih
  | case5 _ _ _ _ _ ih => exact noStray_prepend .nil ih

theorem noStray_interpolated (text : List Char) : NoStray (interpolated text).faults := by
  fun_induction interpolated text with
  | case1 => simp [NoStray]
  | case2 => exact .nil
  | case3 => simp [NoStray]
  | case4 escaped _ ih => exact noStray_prependEscape escaped ih
  | case5 _ ih => exact noStray_prepend .nil ih
  | case6 => exact .nil
  | case7 _ ih => exact noStray_prepend .nil ih
  | case8 _ _ ih => exact noStray_prepend (by simp [NoStray]) ih
  | case9 _ _ _ _ _ _ _ _ _ ih => exact noStray_prepend .nil ih

end Quoted

/-- A piece with the fault of a character that starts nothing is that character. -/
def Piece.Strays (piece : Piece) : Prop :=
  NoStray piece.faults ∨ ∃ char, piece = .stray char ∧ char ∉ ['\n', '.', '}']

theorem Cut.next_strays (embedded : Bool) (start : Char) (rest : List Char) :
    (next embedded start rest).piece.Strays := by
  apply Cut.cases_next (motive := fun cut => cut.piece.Strays)
  case command =>
    unfold command
    split <;> exact .inl .nil
  case string => exact .inl ((Quoted.noStray_string rest).moved (· + 1))
  case pair => exact fun _ _ _ _ => .inl .nil
  case name => exact .inl .nil
  case number =>
    simp only [number]
    split
    · exact .inl .nil
    · exact .inl (by simp [NoStray])
  case symbol => exact fun _ _ => .inl .nil
  case comment =>
    intro _
    unfold comment
    split
    · simp only
      split
      · exact .inl .nil
      · exact .inl (by simp [NoStray])
    · exact .inl .nil
  case lineBreak => exact fun _ => .inl .nil
  case blank => exact fun _ => .inl .nil
  case stray => exact fun plain => .inr ⟨start, rfl, plain⟩

theorem Step.stretch_strays {before : Piece} (noFault : before.faults = []) (spans : List Nat)
    (rest : List Char) : ∀ piece ∈ (stretch before spans rest).pieces,
      NoStray piece.faults := by
  have first : NoStray before.faults := noFault ▸ .nil
  have inner := Quoted.noStray_interpolated rest
  unfold stretch
  simp only
  split <;> simp only [List.forall_mem_cons] <;> exact ⟨first, inner, .nil, nofun⟩

theorem Step.next_strays (spans : List Nat) (start : Char) (rest : List Char) :
    ∀ piece ∈ (next spans start rest).pieces, piece.Strays := by
  induction spans, start, rest using cases_next with
  | opens depth outer rest =>
    rw [next_open]
    simp [Piece.Strays, Piece.plain, NoStray]
  | closes depth outer rest =>
    rw [next_close]
    simp [Piece.Strays, Piece.plain, NoStray]
  | ends outer rest => exact fun piece mem => .inl (stretch_strays rfl outer rest piece mem)
  | quote spans rest =>
    rw [next_quote]
    exact fun piece mem => .inl (stretch_strays rfl spans rest piece mem)
  | other spans start rest noBrace noQuote =>
    rw [next_other noBrace noQuote]
    intro piece mem
    rw [List.mem_singleton.mp mem]
    exact Cut.next_strays _ start rest

theorem pieces_strays (spans : List Nat) (text : List Char) :
    ∀ piece ∈ pieces spans text, piece.Strays := by
  fun_induction pieces spans text with
  | case1 spans =>
    intro piece mem
    obtain ⟨_, _, mem⟩ := List.mem_flatMap.mp mem
    simp only [List.mem_cons, List.not_mem_nil, or_false] at mem
    rcases mem with rfl | rfl
    · exact .inl (by simp [NoStray])
    · exact .inl .nil
  | case2 spans start rest step ih =>
    intro piece mem
    rcases List.mem_append.mp mem with inStep | inRest
    · exact Step.next_strays spans start rest piece inStep
    · exact ih piece inRest

variable {stray : Char}

/-- A step that cuts off such a character cuts off nothing else. -/
theorem Step.next_of_stray {spans : List Nat} {start : Char} {rest : List Char}
    (mem : .stray stray ∈ (next spans start rest).pieces) :
    next spans start rest = ⟨[.stray stray], spans, rest⟩ := by
  have faulty : ¬ NoStray (Piece.stray stray).faults := by
    simp [NoStray, Piece.stray]
  induction spans, start, rest using cases_next with
  | opens depth outer rest =>
    rw [next_open] at mem
    cases List.mem_singleton.mp mem
  | closes depth outer rest =>
    rw [next_close] at mem
    cases List.mem_singleton.mp mem
  | ends outer rest => exact absurd (stretch_strays rfl outer rest _ mem) faulty
  | quote spans rest =>
    rw [next_quote] at mem
    exact absurd (stretch_strays rfl spans rest _ mem) faulty
  | other spans start rest noBrace noQuote =>
    have behind := Cut.tail_append_rest (!spans.isEmpty) start rest
    rw [next_other noBrace noQuote] at mem ⊢
    rw [single, ← List.mem_singleton.mp mem]
    rw [← List.mem_singleton.mp mem] at behind
    rw [show (Cut.next (!spans.isEmpty) start rest).rest = rest from behind]

/-- Where a piece ends in front of a text, it ends too when a blank replaces a stray character. -/
theorem fits_of_stray (plain : stray ∉ ['\n', '.', '}']) (front back : List Char) :
    Fits (front ++ ' ' :: back) (front ++ stray :: back) := by
  cases front with
  | nil =>
    refine .inl fun boundary isFirst => ?_
    cases isFirst
    exact separator_blank
  | cons first front =>
    refine .inr ⟨rfl, ?_⟩
    cases front with
    | nil =>
      have noPoint : stray ≠ '.' := by simp_all
      simp [noPoint]
    | cons second front => rfl

/-- A piece among the pieces of a step and of the rest is one of these or one of those. -/
theorem Piece.split_append {own rest front back : List Piece} {piece : Piece}
    (cut : own ++ rest = front ++ piece :: back) :
    (∃ later, front = own ++ later ∧ rest = later ++ piece :: back) ∨
      ∃ behind, own = front ++ piece :: behind ∧ back = behind ++ rest := by
  rcases List.append_eq_append_iff.mp cut with ⟨later, isFront, inRest⟩ |
    ⟨last, inOwn, inBack⟩
  · exact .inl ⟨later, isFront, inRest⟩
  · cases last with
    | nil => exact .inl ⟨[], by simpa using inOwn.symm, inBack.symm⟩
    | cons first last =>
      cases inBack
      exact .inr ⟨last, inOwn, rfl⟩

/-- A blank in the place of a stray character is cut off instead, and nothing else changes. -/
theorem pieces_of_stray (plain : stray ∉ ['\n', '.', '}']) (spans : List Nat) (text : List Char)
    (front back : List Piece) (cut : pieces spans text = front ++ .stray stray :: back) :
    pieces spans (Piece.textOf front ++ ' ' :: Piece.textOf back) =
      front ++ .gap [' '] :: back := by
  fun_induction pieces spans text generalizing front with
  | case1 spans =>
    have inside : .stray stray ∈ closing spans := cut ▸ by simp
    obtain ⟨_, _, mem⟩ := List.mem_flatMap.mp inside
    simp [Piece.stray, Piece.plain] at mem
  | case2 spans start rest step ih =>
    rcases Piece.split_append cut with ⟨later, rfl, inRest⟩ | ⟨behind, inStep, rfl⟩
    · have isRest : step.rest = Piece.textOf later ++ stray :: Piece.textOf back := by
        rw [← textOf_pieces step.spans step.rest, inRest]
        simp [Piece.textOf, Piece.stray]
      have noEnd : ∀ embedded, endsComment embedded stray = false := by
        intro embedded
        simp_all [endsComment]
      have behind := pieces_onto (.inr (by rw [isRest]; simp))
        (isRest ▸ fits_of_stray plain (Piece.textOf later) (Piece.textOf back)) (by
          rw [isRest]
          cases Piece.textOf later with
          | nil => simp [noEnd]
          | cons first later => exact id)
      rw [show Piece.textOf (step.pieces ++ later) = Piece.textOf step.pieces ++ Piece.textOf later
        from List.flatMap_append, List.append_assoc, behind, ih _ inRest,
        List.append_assoc]
    · have inside : .stray stray ∈ step.pieces := inStep ▸ by simp
      have isStep : step = ⟨[.stray stray], spans, rest⟩ := Step.next_of_stray inside
      rw [isStep] at inStep ⊢
      obtain ⟨rfl, rfl⟩ : front = [] ∧ behind = [] := by
        cases front with
        | nil => simpa using inStep
        | cons first front => simp at inStep
      rw [List.nil_append, textOf_pieces]
      exact pieces_blank spans rest

theorem Piece.located_append_cons (place : Position) (front back : List Piece) (piece : Piece) :
    located place (front ++ piece :: back) =
      located place front ++ (place.after (textOf front), piece) ::
        located ((place.after (textOf front)).after piece.text) back := by
  rw [located_append, located]

theorem Position.after_stray (plain : stray ∉ ['\n', '.', '}']) (place : Position)
    (text : List Char) : place.after (stray :: text) = place.after (' ' :: text) := by
  have noBreak : stray ≠ '\n' := by simp_all
  rw [after_cons, after_cons, advance, advance, if_neg noBreak, if_neg (by decide)]

theorem lexChars_of_stray {text : List Char} {front back : List Piece}
    (plain : stray ∉ ['\n', '.', '}']) (cut : pieces [] text = front ++ .stray stray :: back) :
    (lexChars (Piece.textOf front ++ ' ' :: Piece.textOf back)).tokens = (lexChars text).tokens ∧
      ∃ before behind, (lexChars text).errors =
            before ++ ⟨Position.start.after (Piece.textOf front), .unexpectedCharacter stray⟩ ::
              behind ∧
          (lexChars (Piece.textOf front ++ ' ' :: Piece.textOf back)).errors =
            before ++ behind := by
  have whole : text = Piece.textOf front ++ stray :: Piece.textOf back := by
    rw [← textOf_pieces [] text, cut]
    simp [Piece.textOf, Piece.stray]
  have last : Position.start.after (Piece.textOf front ++ ' ' :: Piece.textOf back) =
      Position.start.after text := by
    rw [whole, Position.after_append, Position.after_append, Position.after_stray plain]
  have places : ∀ place : Position, place.after (Piece.stray stray).text =
      place.after (Piece.gap [' ']).text :=
    fun place => Position.after_stray plain place []
  unfold lexChars
  simp only
  rw [last, pieces_of_stray plain [] text front back cut, cut, Piece.located_append_cons,
    Piece.located_append_cons, places]
  constructor
  · simp only [List.filterMap_append, List.filterMap_cons]
    rfl
  · refine ⟨_, _, List.flatMap_append.trans ?_, List.flatMap_append⟩
    rfl

/--
A stray character is as good as a blank.  Where the fault of a character that
starts nothing is noticed, this character stands, and with a blank instead of it
the tokens are the same ones and so are all the other errors.
-/
theorem lex_stray_as_blank
    {source : String}
    {place : Position}
    (noReturn : '\r' ∉ source.toList)
    (noticed : ⟨place, .unexpectedCharacter stray⟩ ∈ (lex source).errors) :
    source.toList[place.offset]? = some stray ∧
      (lex (String.ofList (source.toList.set place.offset ' '))).tokens = (lex source).tokens ∧
      ∃ before behind,
        (lex source).errors = before ++ ⟨place, .unexpectedCharacter stray⟩ :: behind ∧
          (lex (String.ofList (source.toList.set place.offset ' '))).errors = before ++ behind := by
  have isLexed : ∀ text, '\r' ∉ text → lex (String.ofList text) = lexChars text := by
    intro text noReturn
    rw [lex, String.toList_ofList, Text.unifyLineEnds_eq text noReturn]
  have isSource := isLexed _ noReturn
  rw [String.ofList_toList] at isSource
  rw [isSource] at noticed ⊢
  obtain ⟨⟨spot, piece⟩, located, inPiece⟩ := List.mem_flatMap.mp noticed
  obtain ⟨⟨offset, fault⟩, isFault, isError⟩ := List.mem_map.mp inPiece
  obtain ⟨rfl, rfl⟩ := LexicalError.mk.inj isError
  rcases pieces_strays [] _ piece (Piece.mem_of_located located) with noStray | ⟨_, rfl, plain⟩
  · exact absurd isFault (noStray offset stray)
  obtain ⟨rfl, rfl⟩ : offset = 0 ∧ stray = _ := by simpa [Piece.stray] using isFault
  obtain ⟨front, back, cut, isSpot⟩ := Piece.split_of_located located
  have isPlace : spot.after ((Piece.stray stray).text.take 0) =
      Position.start.after (Piece.textOf front) := isSpot
  have isOffset : (Position.start.after (Piece.textOf front)).offset =
      (Piece.textOf front).length := by
    rw [Position.offset_after]
    exact Nat.zero_add _
  have whole : source.toList = Piece.textOf front ++ stray :: Piece.textOf back := by
    rw [← textOf_pieces [] source.toList, cut]
    simp [Piece.textOf, Piece.stray]
  have replaced : source.toList.set (Piece.textOf front).length ' ' =
      Piece.textOf front ++ ' ' :: Piece.textOf back := by
    rw [whole, List.set_append_right _ _ (le_refl _), Nat.sub_self, List.set_cons_zero]
  have stillNoReturn : '\r' ∉ Piece.textOf front ++ ' ' :: Piece.textOf back := by
    rw [whole] at noReturn
    simp_all
  rw [isPlace, isOffset, replaced, isLexed _ stillNoReturn]
  refine ⟨?_, lexChars_of_stray plain cut⟩
  rw [whole, List.getElem?_append_right (le_refl _), Nat.sub_self, List.getElem?_cons_zero]

/-- Behind a number and in front of a point, with a second one inside of an interpolated string. -/
theorem lex_stray_in_front_of_point :
    '\r' ∉ "x = 1$.5\n@\"\x7b$\x7d\"".toList ∧
      ⟨⟨5, 1, 6⟩, .unexpectedCharacter '$'⟩ ∈ (lex "x = 1$.5\n@\"\x7b$\x7d\"").errors ∧
      "x = 1$.5\n@\"\x7b$\x7d\"".toList[5]? = some '$' ∧
      (lex (String.ofList ("x = 1$.5\n@\"\x7b$\x7d\"".toList.set 5 ' '))).tokens =
        (lex "x = 1$.5\n@\"\x7b$\x7d\"").tokens ∧ ∃ before behind,
        (lex "x = 1$.5\n@\"\x7b$\x7d\"").errors =
            before ++ ⟨⟨5, 1, 6⟩, .unexpectedCharacter '$'⟩ :: behind ∧
          (lex (String.ofList ("x = 1$.5\n@\"\x7b$\x7d\"".toList.set 5 ' '))).errors =
            before ++ behind := by
  have noReturn : '\r' ∉ "x = 1$.5\n@\"\x7b$\x7d\"".toList := by decide
  have noticed : ⟨⟨5, 1, 6⟩, .unexpectedCharacter '$'⟩ ∈
      (lex "x = 1$.5\n@\"\x7b$\x7d\"").errors := by
    decide +kernel
  exact ⟨noReturn, noticed, lex_stray_as_blank noReturn noticed⟩

end ArrowScript

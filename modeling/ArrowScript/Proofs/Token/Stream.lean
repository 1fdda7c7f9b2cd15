import ArrowScript.Proofs.Grammar.Reading
import ArrowScript.Proofs.Token.Layout

namespace ArrowScript

/-!
# The stream of tokens of a script text

Whatever is wrong with a script text, its tokens end in the end of the input,
which stands nowhere else, and they start one behind the other.
-/

theorem Kind.ofWord_mem (word : String) :
    Kind.ofWord word ∈ .identifier :: Kind.keywords.map Prod.snd := by
  unfold Kind.ofWord
  cases found : Kind.keywords.lookup word with
  | none => exact List.mem_cons_self
  | some kind =>
    obtain ⟨front, back, shape, -⟩ := List.lookup_eq_some_iff.mp found
    exact List.mem_cons_of_mem _ (List.mem_map.mpr ⟨(word, kind), by simp [shape], rfl⟩)

namespace Piece

/-- The kind of the token that a piece is. -/
def kind? (piece : Piece) : Option Kind :=
  match piece.content with
  | .token kind _ => some kind
  | .lineBreak => some .lineEnd
  | .blank => none

/-- A piece that is a token is of one of the kinds that are allowed. -/
def KindIn (allowed : Kind → Prop) (piece : Piece) : Prop :=
  ∀ kind, piece.kind? = some kind → allowed kind

theorem kindIn_of_token {allowed : Kind → Prop} {text : List Char} {kind : Kind}
    {value : TokenValue} {faults : List (Nat × LexicalFault)} (isAllowed : allowed kind) :
    KindIn allowed ⟨text, .token kind value, faults⟩ := by
  intro other shape
  cases shape
  exact isAllowed

theorem kindIn_of_blank {allowed : Kind → Prop} {text : List Char}
    {faults : List (Nat × LexicalFault)} : KindIn allowed ⟨text, .blank, faults⟩ := by
  intro _ shape
  cases shape

end Piece

/-- Everything that can start with a character is of one of the kinds that are allowed. -/
structure Spells (allowed : Kind → Prop) (start : Char) : Prop where
  literals : ∀ kind ∈ [Kind.command, .atSign, .string, .number], allowed kind := by decide
  words : ∀ kind ∈ .identifier :: Kind.keywords.map Prod.snd, allowed kind := by decide
  pairs : ∀ second kind, Kind.ofPair? start second = some kind → allowed kind := by
    intro second kind found
    unfold Kind.ofPair? at found
    split at found <;> cases found <;> decide
  symbols : ∀ kind, Kind.ofSymbol? start = some kind → allowed kind := by
    intro kind found
    unfold Kind.ofSymbol? at found
    split at found <;> cases found <;> decide
  lineBreak : start = '\n' → allowed .lineEnd

variable {allowed : Kind → Prop}

/-- What holds of everything that a text can start with holds of its next piece. -/
theorem Cut.cases_next {motive : Cut → Prop} {embedded : Bool} {start : Char} {rest : List Char}
    (command : motive (command rest)) (string : motive (string rest))
    (pair : ∀ second kind behind, Kind.ofPair? start second = some kind →
      motive ⟨.plain kind [start, second], behind⟩)
    (name : motive (name start rest)) (number : motive (number start rest))
    (symbol : ∀ kind, Kind.ofSymbol? start = some kind → motive ⟨.plain kind [start], rest⟩)
    (comment : start = '#' → motive (comment embedded rest))
    (lineBreak : start = '\n' → motive (lineBreak embedded rest))
    (blank : start ∈ [' ', '\t'] → motive ⟨.gap [start], rest⟩)
    (stray : start ∉ ['\n', '.', '}'] →
      motive ⟨⟨[start], .blank, [(0, .unexpectedCharacter start)]⟩, rest⟩) :
    motive (next embedded start rest) := by
  unfold next
  split
  · exact command
  split
  · exact string
  split
  · rename_i cut found
    unfold operator? at found
    split at found
    · cases found
    · obtain ⟨kind, isPair, rfl⟩ := Option.map_eq_some_iff.mp found
      exact pair _ kind _ isPair
  split
  · exact name
  split
  · exact number
  split
  · exact symbol _ ‹_›
  split
  · exact comment ‹_›
  split
  · exact lineBreak ‹_›
  split
  · exact blank (by simpa using ‹(start == ' ' || start == '\t') = true›)
  · rename_i noNumber _ noSymbol _ noBreak _
    refine stray ?_
    simp only [List.mem_cons, List.not_mem_nil, or_false, not_or]
    refine ⟨noBreak, ?_, ?_⟩
    · rintro rfl
      exact noNumber rfl
    · rintro rfl
      cases noSymbol

/-- A piece of a script text is a literal, a word, a pair, a symbol or a line break. -/
theorem Cut.next_kindIn {start : Char} (spells : Spells allowed start) (embedded : Bool)
    (rest : List Char) : (Cut.next embedded start rest).piece.KindIn allowed := by
  apply Cut.cases_next (motive := fun cut => cut.piece.KindIn allowed)
  case command =>
    unfold Cut.command
    split <;> exact Piece.kindIn_of_token (spells.literals _ (by decide))
  case string => exact Piece.kindIn_of_token (spells.literals _ (by decide))
  case pair =>
    exact fun second kind _ isPair => Piece.kindIn_of_token (spells.pairs second kind isPair)
  case name => exact Piece.kindIn_of_token (spells.words _ (Kind.ofWord_mem _))
  case number =>
    simp only [Cut.number]
    split
    · exact Piece.kindIn_of_token (spells.literals _ (by decide))
    · exact Piece.kindIn_of_blank
  case symbol => exact fun kind isSymbol => Piece.kindIn_of_token (spells.symbols kind isSymbol)
  case comment =>
    intro _
    unfold Cut.comment
    split
    · simp only
      split <;> exact Piece.kindIn_of_blank
    · exact Piece.kindIn_of_blank
  case lineBreak =>
    intro isBreak kind shape
    cases embedded with
    | true => cases shape
    | false =>
      cases shape
      exact spells.lineBreak isBreak
  case blank => exact fun _ => Piece.kindIn_of_blank
  case stray => exact fun _ => Piece.kindIn_of_blank

theorem Step.stretch_kindIn {before : Piece}
    (texts : ∀ kind ∈ [Kind.text, .textEnd], allowed kind)
    (start : before.KindIn allowed) (spans : List Nat) (rest : List Char) :
    ∀ piece ∈ (Step.stretch before spans rest).pieces, piece.KindIn allowed := by
  have three : ∀ text last : Piece, text.KindIn allowed → last.KindIn allowed →
      ∀ piece ∈ [before, text, last], piece.KindIn allowed := by
    intro text last inText inLast piece mem
    simp only [List.mem_cons, List.not_mem_nil, or_false] at mem
    rcases mem with rfl | rfl | rfl
    · exact start
    · exact inText
    · exact inLast
  have isText : allowed .text := texts _ (by decide)
  have isEnd : allowed .textEnd := texts _ (by decide)
  unfold Step.stretch
  simp only
  split
  · exact three _ _ (Piece.kindIn_of_token isText) (Piece.kindIn_of_token isEnd)
  · exact three _ _ (Piece.kindIn_of_token isText) Piece.kindIn_of_blank
  · exact three _ _ (Piece.kindIn_of_token isText) (Piece.kindIn_of_token isEnd)

/-- One step cuts off pieces that its first character can start, or the pieces of a string. -/
theorem Step.next_kindIn {start : Char}
    (texts : ∀ kind ∈ [Kind.textStart, .text, .textEnd], allowed kind)
    (spells : Spells allowed start) (spans : List Nat) (rest : List Char) :
    ∀ piece ∈ (Step.next spans start rest).pieces, piece.KindIn allowed := by
  have single : ∀ (embedded : Bool) (spans : List Nat),
      ∀ piece ∈ (Step.single (Cut.next embedded start rest) spans).pieces,
        piece.KindIn allowed := by
    intro embedded spans piece mem
    rw [List.mem_singleton.mp mem]
    exact Cut.next_kindIn spells embedded rest
  have ends : ∀ kind ∈ [Kind.text, .textEnd], allowed kind :=
    fun kind mem => texts kind (List.mem_cons_of_mem _ mem)
  unfold Step.next
  split
  · exact Step.stretch_kindIn ends Piece.kindIn_of_blank _ _
  · exact single _ _
  · exact single _ _
  · exact Step.stretch_kindIn ends (Piece.kindIn_of_token (texts _ List.mem_cons_self)) _ _
  · exact single _ _

theorem pieces_kindIn (texts : ∀ kind ∈ [Kind.textStart, .text, .textEnd], allowed kind)
    (spans : List Nat) (text : List Char) (spells : ∀ char ∈ text, Spells allowed char) :
    ∀ piece ∈ pieces spans text, piece.KindIn allowed := by
  fun_induction pieces spans text with
  | case1 spans =>
    intro piece mem
    obtain ⟨_, _, mem⟩ := List.mem_flatMap.mp mem
    simp only [List.mem_cons, List.not_mem_nil, or_false] at mem
    rcases mem with rfl | rfl
    · exact Piece.kindIn_of_token (texts _ (by decide))
    · exact Piece.kindIn_of_token (texts _ (by decide))
  | case2 spans start rest step ih =>
    intro piece mem
    rcases List.mem_append.mp mem with inStep | inRest
    · exact Step.next_kindIn texts (spells start List.mem_cons_self) spans rest piece inStep
    · refine ih (fun char behind => spells char ?_) piece inRest
      rw [← Step.source_next spans start rest]
      exact List.mem_append_right _ behind

theorem spells_inner (start : Char) : Spells (· ≠ .endOfInput) start where
  lineBreak _ := by decide

theorem Position.offset_after (pos : Position) (text : List Char) :
    (pos.after text).offset = pos.offset + text.length := by
  induction text generalizing pos with
  | nil => rfl
  | cons char rest ih =>
    have advanced : (pos.advance char).offset = pos.offset + 1 := by
      unfold Position.advance
      split <;> rfl
    rw [Position.after_cons, ih, advanced, List.length_cons]
    omega

/-- One token starts in front of another one, or at the same place. -/
def Token.NotAfter (first second : Token) : Prop :=
  first.start.offset ≤ second.start.offset

namespace Piece

theorem map_snd_located (place : Position) (pieces : List Piece) :
    (located place pieces).map Prod.snd = pieces := by
  induction pieces generalizing place with
  | nil => rfl
  | cons piece rest ih => rw [located, List.map_cons, ih]

variable {place : Position}

theorem mem_of_located {pieces : List Piece} {item : Position × Piece}
    (mem : item ∈ located place pieces) : item.2 ∈ pieces := by
  rw [← map_snd_located place pieces]
  exact List.mem_map_of_mem mem

/-- Located pieces lie between the place of the first one and the end of their text. -/
theorem located_bounds {pieces : List Piece} {item : Position × Piece}
    (mem : item ∈ located place pieces) :
    place.offset ≤ item.1.offset ∧ item.1.offset ≤ place.offset + (textOf pieces).length := by
  induction pieces generalizing place with
  | nil => cases mem
  | cons piece rest ih =>
    have whole : (textOf (piece :: rest)).length = piece.text.length + (textOf rest).length := by
      simp [textOf]
    rcases List.mem_cons.mp mem with rfl | inRest
    · simp
    · have bounds := ih inRest
      rw [Position.offset_after] at bounds
      omega

theorem located_pairwise (place : Position) (pieces : List Piece) :
    (located place pieces).Pairwise (fun first second => first.1.offset ≤ second.1.offset) := by
  induction pieces generalizing place with
  | nil => exact List.Pairwise.nil
  | cons piece rest ih =>
    refine List.Pairwise.cons ?_ (ih _)
    intro later mem
    have bounds := located_bounds mem
    rw [Position.offset_after] at bounds
    simp only
    omega

theorem start_token? {piece : Piece} {token : Token} (found : piece.token? place = some token) :
    token.start = place := by
  unfold token? at found
  split at found
  · cases found
    rfl
  · cases found
    rfl
  · cases found

theorem kind_token? {piece : Piece} {token : Token} (found : piece.token? place = some token) :
    piece.kind? = some token.kind := by
  obtain ⟨text, content, faults⟩ := piece
  cases content <;> cases found <;> rfl

end Piece

/-- The tokens of every script text end in the end of the input, which stands nowhere else. -/
theorem lex_terminated (source : String) : Terminated (lex source).tokens := by
  refine ⟨_, _, rfl, rfl, ?_⟩
  intro token mem
  obtain ⟨item, located, found⟩ :=
    List.mem_filterMap.mp ((Layout.settle_sublist _).subset mem)
  exact pieces_kindIn (by decide) _ _ (fun char _ => spells_inner char) item.2
    (Piece.mem_of_located located) _ (Piece.kind_token? found)

theorem lex_pairwise_notAfter (source : String) : (lex source).tokens.Pairwise Token.NotAfter := by
  have whole := textOf_pieces [] (Text.unifyLineEnds source.toList)
  have ordered :=
    Piece.located_pairwise .start (pieces [] (Text.unifyLineEnds source.toList))
  refine List.pairwise_append.mpr ⟨?_, List.pairwise_singleton _ _, ?_⟩
  · apply List.Pairwise.sublist (Layout.settle_sublist _)
    apply List.Pairwise.filterMap _ _ ordered
    intro first second notAfter firstToken firstFound secondToken secondFound
    unfold Token.NotAfter
    rw [Piece.start_token? firstFound, Piece.start_token? secondFound]
    exact notAfter
  · intro token mem last isLast
    obtain ⟨item, located, found⟩ :=
      List.mem_filterMap.mp ((Layout.settle_sublist _).subset mem)
    have bounds := Piece.located_bounds located
    rw [whole] at bounds
    rw [List.mem_singleton.mp isLast]
    unfold Token.NotAfter Token.endOfInput
    rw [Piece.start_token? found, Position.offset_after]
    exact bounds.2

end ArrowScript

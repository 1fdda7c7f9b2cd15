import ArrowScript.Grammar.Program

namespace ArrowScript

/-!
# Two readings of one line

One line of tokens may stand in two places: other tokens follow its line end,
and other errors were recorded in front of it.  `Seam.Runs` says that two
parsers, each at its own place, cannot tell the places apart.  They give the
same result or both abandon their statement, they record the same errors, and
they come to the same token of the line.  It is a relational triple: it tells
how the cursors are related where the parsers start and where they end.

The parsers of the two places may differ in how often they may be entered
again.  A parser that has used up its rounds is therefore alike to any other.
-/

/-- Kinds of tokens that start what may go on behind the end of a line, or end what it stands in. -/
def spanningKinds : List Kind :=
  [.endOfInput, .braceOpen, .braceClose, .kwIf, .kwWhile, .kwEach, .kwFn, .kwGroup, .kwMatch]

theorem ne_of_not_spanning {kind spanning : Kind} (keeps : kind ∉ spanningKinds)
    (mem : spanning ∈ spanningKinds) : kind ≠ spanning :=
  fun same => keeps (same ▸ mem)

/-- Tokens that stand between two line ends and keep to them. -/
def Plain (content : List Token) : Prop :=
  ∀ token ∈ content, token.kind ≠ .lineEnd ∧ token.kind ∉ spanningKinds

/-- The errors recorded in front of a line, and the tokens behind its line end. -/
structure LinePlace where
  before : List GrammarError
  next : Token
  rest : List Token
  starts : next.kind ≠ .lineEnd

/-- The cursor in front of what is left of a line. -/
def LinePlace.within (place : LinePlace) (ending : Token) (previous : Option Token)
    (content : List Token)
    (errors : List GrammarError) : Cursor :=
  ⟨previous, content ++ ending :: place.next :: place.rest, place.before ++ errors⟩

/-- The cursor behind the end of a line. -/
def LinePlace.behind (place : LinePlace) (ending : Token) (errors : List GrammarError) : Cursor :=
  ⟨some ending, place.next :: place.rest, place.before ++ errors⟩

/-- A line end, and two places where it stands. -/
structure Seam where
  ending : Token
  here : LinePlace
  there : LinePlace
  isEnd : ending.kind = .lineEnd

/-- How two readings end alike, for two relations of the cursors where they end. -/
inductive Agree {α : Type} (returns abandons : Cursor → Cursor → Prop) :
    EStateM.Result Stop Cursor α → EStateM.Result Stop Cursor α → Prop
  | ok {value : α} {here there : Cursor} (holds : returns here there) :
      Agree returns abandons (.ok value here) (.ok value there)
  | abandoned {here there : Cursor} (holds : abandons here there) :
      Agree returns abandons (.error .abandoned here) (.error .abandoned there)
  | exhaustedHere {here : Cursor} {result : EStateM.Result Stop Cursor α} :
      Agree returns abandons (.error .exhausted here) result
  | exhaustedThere {there : Cursor} {result : EStateM.Result Stop Cursor α} :
      Agree returns abandons result (.error .exhausted there)

namespace Seam

open ArrowScript.Parser

/-- Both cursors stand in front of the same rest of the line, behind the same errors of it. -/
inductive Inside (seam : Seam) : Cursor → Cursor → Prop
  | within
      {last last' : Option Token}
      {content : List Token}
      {errors : List GrammarError}
      (plain : Plain content) :
      Inside seam (seam.here.within seam.ending last content errors)
        (seam.there.within seam.ending last' content errors)

/-- Both cursors stand behind the line, behind the same errors of it. -/
inductive Behind (seam : Seam) : Cursor → Cursor → Prop
  | behind (errors : List GrammarError) :
      Behind seam (seam.here.behind seam.ending errors) (seam.there.behind seam.ending errors)

/-- The token in front of which both cursors stand. -/
inductive Faces (seam : Seam) : Token → Cursor → Cursor → Prop
  | ending {last last' : Option Token} {errors : List GrammarError} :
      Faces seam seam.ending (seam.here.within seam.ending last [] errors)
        (seam.there.within seam.ending last' [] errors)
  | token
      {last last' : Option Token}
      {token : Token}
      {content : List Token}
      {errors : List GrammarError}
      (notEnd : token.kind ≠ .lineEnd)
      (keeps : token.kind ∉ spanningKinds)
      (plain : Plain content) :
      Faces seam token (seam.here.within seam.ending last (token :: content) errors)
        (seam.there.within seam.ending last' (token :: content) errors)

/-- From cursors related by `starts` two parsers run alike, to cursors related by `ends`. -/
def Runs (seam : Seam) (starts : Cursor → Cursor → Prop) (parser parser' : Parser α)
    (ends : Cursor → Cursor → Prop) : Prop :=
  ∀ here there, starts here there → Agree ends seam.Inside (parser here) (parser' there)

/-- Two parsers that are alike wherever they stand in the line, and leave the rest of it alike. -/
abbrev Abreast (seam : Seam) (parser parser' : Parser α) : Prop :=
  seam.Runs seam.Inside parser parser' seam.Inside

variable {α β σ : Type} {seam : Seam} {here there : Cursor} {token : Token}

theorem Inside.faces (inside : seam.Inside here there) : ∃ token,
    seam.Faces token here there := by
  obtain @⟨last, last', content, errors, plain⟩ := inside
  cases content with
  | nil => exact ⟨seam.ending, .ending⟩
  | cons token content =>
    obtain ⟨first, others⟩ := List.forall_mem_cons.mp plain
    exact ⟨token, .token first.1 first.2 others⟩

namespace Faces

variable (faces : seam.Faces token here there)

include faces

theorem inside : seam.Inside here there := by
  cases faces with
  | ending => exact .within (List.forall_mem_nil _)
  | token notEnd keeps plain =>
    exact .within (List.forall_mem_cons.mpr ⟨⟨notEnd, keeps⟩, plain⟩)

theorem keeps : token.kind ∉ spanningKinds := by
  cases faces with
  | ending => simp [seam.isEnd, spanningKinds]
  | token _ keeps _ => exact keeps

theorem rest : (∃ rest, here.rest = token :: rest) ∧ ∃ rest, there.rest = token :: rest := by
  cases faces <;> exact ⟨⟨_, rfl⟩, ⟨_, rfl⟩⟩

/-- Behind a token that does not end the line stands one of it or its end, and then another. -/
theorem next (notEnd : token.kind ≠ .lineEnd) :
    ∃ second, (peekNext here = .ok second here ∧ peekNext there = .ok second there) ∧
      (second.kind ≠ .lineEnd →
        ∃ third, peekThird here = .ok third here ∧ peekThird there = .ok third there) := by
  cases faces with
  | ending => exact absurd seam.isEnd notEnd
  | @token _ _ _ content =>
    match content with
    | [] => exact ⟨seam.ending, ⟨rfl, rfl⟩, absurd seam.isEnd⟩
    | [second] => exact ⟨second, ⟨rfl, rfl⟩, fun _ => ⟨_, rfl, rfl⟩⟩
    | second :: third :: _ => exact ⟨second, ⟨rfl, rfl⟩, fun _ => ⟨third, rfl, rfl⟩⟩

end Faces

namespace Runs

variable {parser parser' : Parser α} {next next' : α → Parser β} {fault : GrammarFault}
  {kinds : List Kind} {starts middle ends : Cursor → Cursor → Prop}

theorem pure (value : α) : seam.Runs starts (Pure.pure value) (Pure.pure value) starts :=
  fun _ _ holds => .ok holds

theorem bind (first : seam.Runs starts parser parser' middle)
    (goesOn : ∀ value, seam.Runs middle (next value) (next' value) ends) :
    seam.Runs starts (parser >>= next) (parser' >>= next') ends := by
  intro here there holds
  show Agree ends seam.Inside (EStateM.bind parser next here) (EStateM.bind parser' next' there)
  have agree := first here there holds
  unfold EStateM.bind
  generalize parser here = result at agree ⊢
  generalize parser' there = result' at agree ⊢
  cases agree with
  | ok holds => exact goesOn _ _ _ holds
  | abandoned holds => exact .abandoned holds
  | exhaustedHere => exact .exhaustedHere
  | exhaustedThere => exact .exhaustedThere

theorem map (runs : seam.Runs starts parser parser' ends) (build : α → β) :
    seam.Runs starts (do Pure.pure (build (← parser)))
      (do Pure.pure (build (← parser'))) ends :=
  runs.bind fun _ => pure _

theorem also {holds : Cursor → Prop} (runs : seam.Runs starts parser parser' ends)
    (stops : ∀ cursor value after, parser cursor = .ok value after → holds after) :
    seam.Runs starts parser parser' fun here there => ends here there ∧ holds here := by
  intro here there related
  have agree := runs here there related
  generalize ended : parser here = result at agree ⊢
  generalize parser' there = result' at agree ⊢
  cases agree with
  | ok related => exact .ok ⟨related, stops _ _ _ ended⟩
  | abandoned related => exact .abandoned related
  | exhaustedHere => exact .exhaustedHere
  | exhaustedThere => exact .exhaustedThere

theorem faces (runs : seam.Runs seam.Inside parser parser' ends) :
    seam.Runs (seam.Faces token) parser parser' ends :=
  fun here there faces => runs here there faces.inside

theorem report : seam.Abreast (Parser.report token fault) (Parser.report token fault) := by
  rintro _ _ @⟨last, last', content, errors, plain⟩
  apply Agree.ok
  simp only [LinePlace.within, List.append_assoc]
  exact .within plain

/-- An error may be recorded behind the line still. -/
theorem report_behind :
    seam.Runs seam.Behind (Parser.report token fault) (Parser.report token fault) seam.Behind := by
  rintro _ _ ⟨errors⟩
  apply Agree.ok
  simp only [LinePlace.behind, List.append_assoc]
  exact .behind _

theorem abandon :
    seam.Runs seam.Inside (Parser.abandon token fault : Parser α)
      (Parser.abandon token fault) ends :=
  report.bind fun _ _ _ recorded => .abandoned recorded

theorem abandon_bind :
    seam.Runs seam.Inside (Parser.abandon token fault >>= next)
      (Parser.abandon token fault >>= next')
      ends := by
  have nothing : seam.Runs seam.Inside (Parser.abandon token fault : Parser α)
      (Parser.abandon token fault) fun _ _ => False :=
    abandon
  exact nothing.bind fun _ _ _ impossible => impossible.elim

theorem look_bind {value : α}
    (looks : parser here = .ok value here ∧ parser' there = .ok value there)
    (goesOn : Agree ends seam.Inside (next value here) (next' value there)) :
    Agree ends seam.Inside ((parser >>= next) here) ((parser' >>= next') there) := by
  simpa only [Bind.bind, EStateM.bind, looks] using goesOn

theorem peek_bind {next next' : Token → Parser α} (goesOn :
      ∀ token, token.kind ∉ spanningKinds →
        seam.Runs (seam.Faces token) (next token) (next' token) ends) :
    seam.Runs seam.Inside (peek >>= next) (peek >>= next') ends := by
  intro here there inside
  obtain ⟨token, faces⟩ := inside.faces
  refine look_bind ?_ (goesOn token faces.keeps here there faces)
  cases faces <;> exact ⟨rfl, rfl⟩

theorem check_bind {next next' : Bool → Parser α}
    (holds : ∀ token, token.kind ∈ kinds → token.kind ∉ spanningKinds →
      seam.Runs (seam.Faces token) (next true) (next' true) ends)
    (fails : seam.Runs seam.Inside (next false) (next' false) ends) :
    seam.Runs seam.Inside (check kinds >>= next) (check kinds >>= next') ends := by
  unfold check
  rw [bind_assoc, bind_assoc]
  apply peek_bind
  intro token keeps
  rw [pure_bind, pure_bind]
  by_cases member : token.kind ∈ kinds
  · simpa [member] using holds token member keeps
  · simpa [member] using fails.faces

theorem check : seam.Abreast (Parser.check kinds) (Parser.check kinds) := by
  rw [← bind_pure (Parser.check kinds)]
  exact check_bind (fun _ _ _ => (pure _).faces) (pure _)

theorem advance (notEnd : token.kind ≠ .lineEnd) :
    seam.Runs (seam.Faces token) Parser.advance Parser.advance seam.Inside := by
  intro here there faces
  have inInput : token.kind ≠ .endOfInput := ne_of_not_spanning faces.keeps (by decide)
  cases faces with
  | ending => exact absurd seam.isEnd notEnd
  | token _ _ plain =>
    simp only [Parser.advance, LinePlace.within, List.cons_append, if_neg inInput]
    exact .ok (.within plain)

theorem advance_ending (isEnd : token.kind = .lineEnd) :
    seam.Runs (seam.Faces token) Parser.advance Parser.advance seam.Behind := by
  intro here there faces
  cases faces with
  | @ending _ _ errors =>
    simp only [Parser.advance, LinePlace.within, List.nil_append, isEnd, reduceCtorEq, ↓reduceIte]
    exact .ok (.behind errors)
  | token notEnd _ _ => exact absurd isEnd notEnd

theorem accept (inLine : .lineEnd ∉ kinds) : seam.Abreast (accept? kinds) (accept? kinds) := by
  apply check_bind
  · exact fun token mem _ => (advance fun isEnd => inLine (isEnd ▸ mem)).map some
  · exact pure none

theorem consume (inLine : .lineEnd ∉ kinds) :
    seam.Abreast (Parser.consume kinds fault) (Parser.consume kinds fault) := by
  apply (accept inLine).bind
  rintro (_ | token)
  · exact peek_bind fun _ _ => abandon.faces
  · exact pure token

/-- Loops with rounds alike are alike, however many rounds either of them may take. -/
theorem rounds {body body' : σ → Parser (Round σ α)}
    (step : ∀ state, seam.Abreast (body state) (body' state)) (count count' : Nat) (state : σ) :
    seam.Abreast (Parser.rounds body count state) (Parser.rounds body' count' state) := by
  induction count generalizing count' state with
  | zero => exact fun _ _ _ => .exhaustedHere
  | succ count ih =>
    cases count' with
    | zero => exact fun _ _ _ => .exhaustedThere
    | succ count' =>
      apply (step state).bind
      rintro (next | result)
      · exact ih count' next
      · exact pure result

end Runs

end Seam

end ArrowScript

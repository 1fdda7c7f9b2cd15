import ArrowScript.Proofs.Grammar.Abreast
import ArrowScript.Proofs.Grammar.Totality

namespace ArrowScript

/-!
# Lines are read independently

A program of plain lines is read line by line, however malformed the lines are.
Each line gives the statements and the errors that it gives as the only line of
a program, and so does each line of a block.

Recovery may stop within a line, in front of a keyword that starts a statement,
or behind its line end; it stops there at every place where the line stands.
-/

/-- Tokens between two line ends, none of which goes on behind a line end, and the line end. -/
structure Line where
  content : List Token
  ending : Token
  nonempty : content ≠ []
  plain : Plain content
  isEnd : ending.kind = .lineEnd

/-- The tokens of a line up to and including its line end. -/
def Line.tokens (line : Line) : List Token :=
  line.content ++ [line.ending]

theorem Line.keeps {lines : List Line} {token : Token}
    (mem : token ∈ lines.flatMap Line.tokens) : token.kind ∉ spanningKinds := by
  obtain ⟨line, -, inLine⟩ := List.mem_flatMap.mp mem
  rcases List.mem_append.mp inLine with inContent | isEnding
  · exact (line.plain token inContent).2
  · rw [List.mem_singleton] at isEnding
    simp [isEnding, line.isEnd, spanningKinds]

namespace Seam

open ArrowScript.Parser

variable {seam : Seam} {here there : Cursor}

/-- Both cursors are where a statement may start: at the same token of the line, or behind it. -/
inductive Onward (seam : Seam) (here there : Cursor) : Prop
  | amid {token : Token} (faces : seam.Faces token here there) (notEnd : token.kind ≠ .lineEnd)
  | behind (behind : seam.Behind here there)

theorem Onward.within {last last' : Option Token} {content : List Token}
    {errors : List GrammarError} (nonempty : content ≠ []) (plain : Plain content) :
    seam.Onward (seam.here.within seam.ending last content errors)
      (seam.there.within seam.ending last' content errors) := by
  cases content with
  | nil => exact absurd rfl nonempty
  | cons token content =>
    obtain ⟨first, others⟩ := List.forall_mem_cons.mp plain
    exact .amid (.token first.1 first.2 others) first.1

/-- Where a statement may start, no line end stands. -/
theorem Onward.starts (onward : seam.Onward here there) :
    (∃ next rest, here.rest = next :: rest ∧ next.kind ≠ .lineEnd) ∧
      ∃ next rest, there.rest = next :: rest ∧ next.kind ≠ .lineEnd := by
  cases onward with
  | @amid token faces notEnd =>
    obtain ⟨⟨rest, shape⟩, ⟨rest', shape'⟩⟩ := faces.rest
    exact ⟨⟨token, rest, shape, notEnd⟩, ⟨token, rest', shape', notEnd⟩⟩
  | behind behind =>
    obtain ⟨errors⟩ := behind
    exact ⟨⟨_, _, rfl, seam.here.starts⟩, ⟨_, _, rfl, seam.there.starts⟩⟩

theorem braceDepth_of_not_spanning {token : Token} (keeps : token.kind ∉ spanningKinds)
    (depth : Nat) : braceDepth depth token = depth := by
  unfold braceDepth
  split
  · simp [‹token.kind = _›, spanningKinds] at keeps
  · simp [‹token.kind = _›, spanningKinds] at keeps
  · rfl

/--
Recovery behind a token of a line stops in front of another token of the line,
or behind the line, alike at both places.
-/
theorem toBoundary_onward (seam : Seam) (inBlock : Bool) {last : Token} {content : List Token}
    (inLine : last.kind ≠ .lineEnd) (plain : Plain content) (errors : List GrammarError) :
    ∃ target target', toBoundary inBlock 0 (some last)
        (content ++ seam.ending :: seam.here.next :: seam.here.rest) = some target ∧
      toBoundary inBlock 0 (some last)
        (content ++ seam.ending :: seam.there.next :: seam.there.rest) = some target' ∧
      seam.Onward ⟨target.1, target.2, seam.here.before ++ errors⟩
        ⟨target'.1, target'.2, seam.there.before ++ errors⟩ := by
  induction content generalizing last with
  | nil =>
    have passes : ∀ next rest, toBoundary inBlock 0 (some last) (seam.ending :: next :: rest) =
        some (some seam.ending, next :: rest) := by
      simp [toBoundary, isBoundary, boundaryKinds, braceDepth, inLine, seam.isEnd]
    exact ⟨_, _, passes _ _, passes _ _, .behind (.behind errors)⟩
  | cons token content ih =>
    obtain ⟨⟨notEnd, keeps⟩, others⟩ := List.forall_mem_cons.mp plain
    have inInput : token.kind ≠ .endOfInput := ne_of_not_spanning keeps (by decide)
    simp only [List.cons_append, toBoundary, inInput, ↓reduceIte,
      braceDepth_of_not_spanning keeps]
    by_cases stops : isBoundary inBlock last token = true
    · simp only [stops, ↓reduceIte]
      exact ⟨_, _, rfl, rfl, .amid (.token notEnd keeps others) notEnd⟩
    · simp only [stops]
      exact ih notEnd others

/-- Recovery in a line stops where a statement may start. -/
theorem synchronize_runs (inBlock : Bool) :
    seam.Runs seam.Inside (synchronize inBlock) (synchronize inBlock) seam.Onward := by
  rintro _ _ @⟨last, last', content, errors, plain⟩
  cases content with
  | nil =>
    have passes : ∀ {cursor : Cursor} {next : Token} {rest : List Token},
        cursor.rest = seam.ending :: next :: rest →
        synchronize inBlock cursor =
          .ok () ⟨some seam.ending, next :: rest, cursor.errors⟩ := by
      intro cursor next rest shape
      simp [synchronize, shape, toBoundary, isBoundary, braceDepth, seam.isEnd]
    rw [passes rfl, passes rfl]
    exact .ok (.behind (.behind errors))
  | cons token content =>
    obtain ⟨⟨notEnd, keeps⟩, others⟩ := List.forall_mem_cons.mp plain
    have inInput : token.kind ≠ .endOfInput := ne_of_not_spanning keeps (by decide)
    have noBrace : token.kind ≠ .braceClose := ne_of_not_spanning keeps (by decide)
    obtain ⟨_, _, stops, stops', onward⟩ := toBoundary_onward seam inBlock notEnd others errors
    simp only [synchronize, LinePlace.within, List.cons_append, inInput, noBrace, ↓reduceIte,
      decide_false, Bool.and_false, Bool.false_eq_true, braceDepth_of_not_spanning keeps, stops,
      stops']
    exact .ok onward

end Seam

namespace Grammar

open ArrowScript.Parser
open ArrowScript.Seam
open Braces

/-- A statement, or none if it is abandoned: then reading goes on behind it. -/
def salvaged (declared : Parser Stmt) (inBlock : Bool) : Parser (List Stmt) := do
  match ← attempt declared with
  | some stmt => return [stmt]
  | none =>
    synchronize inBlock
    return []

theorem salvaged_runs {seam : Seam} {declared declared' : Parser Stmt} (inBlock : Bool)
    (runs : seam.Runs seam.Inside declared declared' seam.Behind) :
    seam.Runs seam.Inside (salvaged declared inBlock) (salvaged declared' inBlock) seam.Onward := by
  intro here there inside
  have agree := runs here there inside
  simp only [salvaged, attempt, Bind.bind, EStateM.bind]
  generalize declared here = result at agree ⊢
  generalize declared' there = result' at agree ⊢
  cases agree with
  | ok behind => exact .ok (.behind behind)
  | abandoned inside => exact (synchronize_runs inBlock).map _ _ _ inside
  | exhaustedHere => exact .exhaustedHere
  | exhaustedThere => exact .exhaustedThere

variable {cursor after : Cursor} {token opening closing : Token} {rest : List Token} {depth : Nat}
  {setting : Setting}

theorem skipLineEnds_of_ne (shape : cursor.rest = token :: rest)
    (notEnd : token.kind ≠ .lineEnd) :
    skipLineEnds cursor = .ok () cursor := by
  obtain ⟨previous, _, errors⟩ := cursor
  cases shape
  simp [skipLineEnds, skipLineEnds.go, notEnd]

theorem check_of_rest (shape : cursor.rest = token :: rest) (kinds : List Kind) :
    check kinds cursor = .ok (kinds.contains token.kind) cursor := by
  unfold check
  rw [bind_of_ok (show peek cursor = .ok token cursor by simp [peek, shape])]
  rfl

/--
A loop that gathers statements up to a token of the kind `last`.  A round in
front of a token of a plain line salvages a statement and passes over the line
ends behind it, if the loop does so there.  The loop may be run with any depth
of nested entries.
-/
structure Gathers (body : Nat → List Stmt → Parser (Round (List Stmt) (List Stmt)))
    (declared : Nat → Parser Stmt) (inBlock : Bool) (tidy : Parser Unit)
    (last : Kind) : Prop where
  notEnd : last ≠ .lineEnd
  runs : ∀ (seam : Seam) (depth depth' : Nat),
    seam.Runs seam.Inside (declared depth) (declared depth') seam.Behind
  tidies : ∀ {cursor : Cursor} {token : Token} {rest : List Token},
    cursor.rest = token :: rest →
    token.kind ≠ .lineEnd → tidy cursor = .ok () cursor
  round :
    ∀ {cursor : Cursor} {token : Token} {rest : List Token} (depth : Nat) (kept : List Stmt),
      cursor.rest = token :: rest →
      token.kind ≠ .lineEnd →
      token.kind ∉ spanningKinds →
      body depth kept cursor =
        (do
          let new ← salvaged (declared depth) inBlock
          tidy
          return Round.again (kept ++ new) : Parser _) cursor
  ends : ∀ {cursor : Cursor} {token : Token} {rest : List Token} (depth : Nat) (kept : List Stmt),
    cursor.rest = token :: rest → token.kind = last →
    body depth kept cursor = .ok (.done kept) cursor

/-- The rounds of a program gather statements up to the end of the input. -/
theorem programRound_gathers : Gathers (fun depth => programRound (productions depth))
      (fun depth => declaration (productions depth) .top) false skipLineEnds .endOfInput where
  notEnd := by decide
  runs seam depth depth' := declaration_runs (productions_abreast seam depth depth') .top
  tidies := skipLineEnds_of_ne
  round := by
    intro cursor token rest depth kept shape _ keeps
    have inInput : [Kind.endOfInput].contains token.kind = false := by
      simpa using ne_of_not_spanning keeps (by decide)
    show programRound (productions depth) kept cursor = _
    unfold programRound salvaged
    rw [bind_of_ok (check_of_rest shape _), inInput]
    simp only [Bool.false_eq_true, ↓reduceIte, bind_assoc]
    refine congrFun (congrArg (attempt _ >>= ·) (funext fun result => ?_)) cursor
    cases result <;> simp
  ends := by
    intro cursor token rest depth kept shape isLast
    show programRound (productions depth) kept cursor = _
    unfold programRound
    rw [bind_of_ok (check_of_rest shape _), isLast]
    rfl

theorem statementRound_gathers (setting : Setting) :
    Gathers (fun depth => statementRound (productions depth) setting)
      (fun depth => (productions depth).declaration setting) true (Pure.pure ()) .braceClose where
  notEnd := by decide
  runs seam depth depth' := by
    cases depth with
    | zero => exact fun _ _ _ => .exhaustedHere
    | succ depth =>
      cases depth' with
      | zero => exact fun _ _ _ => .exhaustedThere
      | succ depth' => exact declaration_runs (productions_abreast seam depth depth') setting
  tidies := fun _ _ => rfl
  round := by
    intro cursor token rest depth kept shape notEnd keeps
    have noBrace : [Kind.braceClose].contains token.kind = false := by
      simpa using ne_of_not_spanning keeps (by decide)
    have inInput : [Kind.endOfInput].contains token.kind = false := by
      simpa using ne_of_not_spanning keeps (by decide)
    show statementRound (productions depth) setting kept cursor = _
    unfold statementRound salvaged
    rw [bind_of_ok (skipLineEnds_of_ne shape notEnd), bind_of_ok (check_of_rest shape _), noBrace]
    simp only [Bool.false_eq_true, ↓reduceIte, bind_assoc]
    rw [bind_of_ok (check_of_rest shape _), inInput]
    simp only [Bool.false_eq_true, ↓reduceIte]
    refine congrFun (congrArg (attempt _ >>= ·) (funext fun result => ?_)) cursor
    cases result <;> simp
  ends := by
    intro cursor token rest depth kept shape isBrace
    show statementRound (productions depth) setting kept cursor = _
    unfold statementRound
    rw [bind_of_ok (skipLineEnds_of_ne shape (by simp [isBrace])),
      bind_of_ok (check_of_rest shape _), isBrace]
    rfl

variable
  {body : Nat → List Stmt → Parser (Round (List Stmt) (List Stmt))}
  {declared : Nat → Parser Stmt}
  {inBlock : Bool}
  {tidy : Parser Unit}
  {last : Kind}

namespace Gathers

variable {count : Nat} {kept result : List Stmt} {previous : Option Token}

variable (gathers : Gathers body declared inBlock tidy last)

include gathers

theorem stop (shape : cursor.rest = token :: rest) (isLast : token.kind = last)
    (ended : rounds (body depth) count kept cursor = .ok result after) :
    result = kept ∧ after = cursor := by
  cases count with
  | zero => cases ended
  | succ count =>
    rw [rounds, bind_of_ok (gathers.ends depth kept shape isLast)] at ended
    cases ended
    exact ⟨rfl, rfl⟩

theorem step (shape : cursor.rest = token :: rest) (notEnd : token.kind ≠ .lineEnd)
    (keeps : token.kind ∉ spanningKinds)
    (ended : rounds (body depth) (count + 1) kept cursor = .ok result after) :
    ∃ new between, salvaged (declared depth) inBlock cursor = .ok new between ∧
      ((∃ next behind, between.rest = next :: behind ∧ next.kind ≠ .lineEnd) →
        rounds (body depth) count (kept ++ new) between = .ok result after) := by
  obtain ⟨round, _, ran, ended⟩ := bind_eq_ok ended
  rw [gathers.round depth kept shape notEnd keeps] at ran
  obtain ⟨new, between, salvages, ran⟩ := bind_eq_ok ran
  refine ⟨new, between, salvages, ?_⟩
  rintro ⟨next, behind, nextShape, starts⟩
  rw [bind_of_ok (gathers.tidies nextShape starts)] at ran
  cases ran
  exact ended

/--
What is left of a line adds the same statements and the same errors where it
stands alone and where other lines stand around it, whatever was gathered
before.  The induction is on the rounds of the reading of the line alone; each
of them salvages a statement at both places, and ends in the line or behind it.
-/
theorem line {seam : Seam} {here there : Cursor} (isLast : seam.there.next.kind = last)
    (onward : seam.Onward here there) {depth' count' : Nat} (front kept : List Stmt)
    {alone : List Stmt} {stopped : Cursor}
    (reads : rounds (body depth') count' kept there = .ok alone stopped)
    (ended : rounds (body depth) count (front ++ kept) here = .ok result after) :
    ∃ errors remaining, stopped = seam.there.behind seam.ending errors ∧
      rounds (body depth) remaining (front ++ alone) (seam.here.behind seam.ending errors) =
        .ok result after := by
  induction count' generalizing count kept here there with
  | zero => cases reads
  | succ count' ih =>
    cases onward with
    | behind behind =>
      obtain ⟨errors⟩ := behind
      obtain ⟨rfl, rfl⟩ := gathers.stop rfl isLast reads
      exact ⟨errors, count, rfl, ended⟩
    | amid faces notEnd =>
      cases count with
      | zero => cases ended
      | succ count =>
        obtain ⟨⟨rest, shape⟩, ⟨rest', shape'⟩⟩ := faces.rest
        obtain ⟨new, here', salvages, ended⟩ := gathers.step shape notEnd faces.keeps ended
        obtain ⟨new', there', salvages', reads⟩ := gathers.step shape' notEnd faces.keeps reads
        have agree := salvaged_runs inBlock (gathers.runs seam depth depth') here there faces.inside
        rw [salvages, salvages'] at agree
        cases agree with
        | ok onward =>
          obtain ⟨starts, starts'⟩ := onward.starts
          have ended := ended starts
          rw [List.append_assoc] at ended
          exact ih onward (kept ++ new) (reads starts') ended

/-- Behind a line stands the first token of the next one, or what ends the loop. -/
theorem lines_start (lines : List Line) {closer : Token} (closes : closer.kind = last)
    (rest : List Token) : ∃ next behind,
      lines.flatMap Line.tokens ++ closer :: rest = next :: behind ∧ next.kind ≠ .lineEnd := by
  cases lines with
  | nil => exact ⟨closer, rest, rfl, closes ▸ gathers.notEnd⟩
  | cons line lines =>
    obtain ⟨first, content, shape⟩ := List.exists_cons_of_ne_nil line.nonempty
    refine ⟨first, content ++ line.ending :: (lines.flatMap Line.tokens ++ closer :: rest),
      by simp [Line.tokens, shape], ?_⟩
    exact (line.plain first (by simp [shape])).1

/-- What a loop gathers from a line that stands in front of the token that ends the loop. -/
def GivesAlone (body : Nat → List Stmt → Parser (Round (List Stmt) (List Stmt))) (last : Kind)
    (line : Line) (given : Parsed) : Prop :=
  ∃ (next : Token) (rest : List Token) (depth count : Nat) (previous : Option Token)
    (after : Cursor),
    next.kind = last ∧
      rounds (body depth) count [] ⟨previous, line.tokens ++ next :: rest, []⟩ =
        .ok given.statements after ∧
      after.errors = given.errors

/--
A loop over lines gathers the statements and the errors of each line as it
gathers them from the line alone.
-/
theorem lines {lines : List Line} {alone : Line → Parsed}
    (gives : ∀ line ∈ lines, GivesAlone body last line (alone line)) {front : List Stmt}
    {closer : Token} {before : List GrammarError} (closes : closer.kind = last) (ended :
      rounds (body depth) count front
          ⟨previous, lines.flatMap Line.tokens ++ closer :: rest, before⟩ =
        .ok result after) :
    result = front ++ lines.flatMap (fun line => (alone line).statements) ∧ ∃ previous',
        after = ⟨previous', closer :: rest, before ++
          lines.flatMap fun line => (alone line).errors⟩ := by
  induction lines generalizing count front previous before with
  | nil =>
    obtain ⟨rfl, rfl⟩ := gathers.stop rfl closes ended
    exact ⟨by simp, previous, by simp⟩
  | cons line lines ih =>
    obtain ⟨givesLine, others⟩ := List.forall_mem_cons.mp gives
    obtain ⟨_, behindAlone, _, _, _, _, isLast, reads, recorded⟩ := givesLine
    obtain ⟨next, behind, nextShape, starts⟩ := gathers.lines_start lines closes rest
    let seam : Seam :=
      { ending := line.ending
        here := ⟨before, next, behind, starts⟩
        there := ⟨[], _, behindAlone, isLast ▸ gathers.notEnd⟩
        isEnd := line.isEnd }
    have shape :
        (⟨previous, (line :: lines).flatMap Line.tokens ++ closer :: rest, before⟩ : Cursor) =
          seam.here.within seam.ending previous line.content [] := by
      simp [seam, LinePlace.within, Line.tokens, nextShape]
    rw [shape, ← List.append_nil front] at ended
    rw [Line.tokens, List.append_assoc] at reads
    obtain ⟨errors, remaining, rfl, ended⟩ :=
      gathers.line isLast (.within line.nonempty line.plain) front [] reads ended
    obtain rfl : errors = (alone line).errors := recorded
    simp only [seam, LinePlace.behind, ← nextShape] at ended
    obtain ⟨rfl, previous', rfl⟩ := ih others ended
    exact ⟨by simp, previous', by simp⟩

end Gathers

theorem program_gathered (lines : List Line) {last : Token} (isLast : last.kind = .endOfInput) :
    ∃ depth count after, rounds (programRound (productions depth)) count []
        (.ofTokens (lines.flatMap Line.tokens ++ [last])) =
      .ok (parse (lines.flatMap Line.tokens ++ [last])).statements after ∧
      after.errors = (parse (lines.flatMap Line.tokens ++ [last])).errors := by
  have ready : Terminated (lines.flatMap Line.tokens ++ [last]) :=
    Terminated.prepend ⟨[], last, rfl, isLast, by simp⟩ fun _ mem =>
      ne_of_not_spanning (Line.keeps mem) (by decide)
  obtain ⟨next, behind, shape, starts⟩ := programRound_gathers.lines_start lines isLast []
  obtain ⟨stmts, -, after, ended, -, -, -⟩ := program_reads ready
  have skips : skipLineEnds (.ofTokens (lines.flatMap Line.tokens ++ [last])) = .ok () _ :=
    skipLineEnds_of_ne shape starts
  have given : parse (lines.flatMap Line.tokens ++ [last]) = ⟨stmts, after.errors⟩ := by
    rw [parse, ended]
  rw [program, bind_of_ok skips] at ended
  rw [given]
  exact ⟨_, _, after, ended, rfl⟩

/-- Statements and errors of the block that a list of tokens starts with. -/
def parseBlock (setting : Setting) (tokens : List Token) : Parsed :=
  match block (productions tokens.length) setting (.ofTokens tokens) with
  | .ok inner cursor => ⟨inner.statements, cursor.errors⟩
  | .error _ cursor => ⟨[], cursor.errors⟩

theorem block_gathered (setting : Setting) (opening : Token)
    (isClosing : closing.kind = .braceClose)
    (lines : List Line) (before : List GrammarError) (ready : Terminated rest)
    (enough : (opening :: (lines.flatMap Line.tokens ++ closing :: rest)).length ≤ depth) :
    ∃ kept after next behind,
      rounds (statementRound (productions depth) setting) (productions depth).rounds []
          ⟨some opening, lines.flatMap Line.tokens ++ closing :: rest, before⟩ =
        .ok kept after ∧ after.rest = next :: behind ∧ next.kind = .braceClose := by
  let start : Cursor := ⟨some opening, lines.flatMap Line.tokens ++ closing :: rest, before⟩
  have closes : ∀ token ∈ [closing], token.kind ≠ .endOfInput := by simp [isClosing]
  have terminated : Terminated start.rest :=
    (ready.prepend closes).prepend fun _ mem =>
      ne_of_not_spanning (Line.keeps mem) (by decide)
  have fits : start.Fits (depth - 1) := ⟨terminated, Nat.le_sub_one_of_lt enough⟩
  have lands : Lands False _ (statements (productions depth) setting) start _ _ :=
    statements_lands (productions_forming False depth) setting rfl
  cases ended : statements (productions depth) setting start with
  | ok kept after =>
    obtain ⟨_, -, -, next, behind, shape, isNext⟩ := lands.of_ok ended
    exact ⟨kept, after, next, behind, ended, shape, isNext⟩
  | error stop after =>
    -- The end of the input is behind the brace that closes the block.
    obtain rfl := lands.stop_eq_abandoned fits ended
    obtain ⟨read, reads, ⟨left, reaches, -⟩, ⟨last, more, shape, isEnd⟩, -⟩ :=
      lands.of_abandoned ended
    obtain rfl := (shape ▸ reads.terminated terminated).rest_eq_nil isEnd
    have noBraces : level? 0 (lines.flatMap Line.tokens) = some 0 :=
      level?_of_no_braces fun token mem => by
        have keeps := Line.keeps mem
        simp_all [spanningKinds]
    have partner : partner? 0 start.rest = some (closing, rest) := by
      rw [partner?_append noBraces, partner?, step?_closing_none isClosing]
    rw [reads.rest_eq, shape, partner?_at_end reaches isEnd] at partner
    cases partner

theorem block_of_rounds {rules : Productions} (isOpening : opening.kind = .braceOpen)
    {previous : Option Token} {inner : List Token} {before : List GrammarError} {kept : List Stmt}
    (gathered : rounds (statementRound rules setting) rules.rounds []
      ⟨some opening, inner, before⟩ = .ok kept after)
    (shape : after.rest = closing :: rest) (isClosing : closing.kind = .braceClose) :
    block rules setting ⟨previous, opening :: inner, before⟩ =
      .ok ⟨opening, kept, closing⟩ ⟨some closing, rest, after.errors⟩ := by
  have opens : consume [.braceOpen] .expectedOpeningBrace ⟨previous, opening :: inner, before⟩ =
      .ok opening ⟨some opening, inner, before⟩ :=
    consume_of_mem rfl (by simp [isOpening]) (by simp [isOpening])
  have closes : advance after = .ok closing ⟨some closing, rest, after.errors⟩ := by
    simp [advance, shape, isClosing]
  unfold block statements
  rw [bind_of_ok opens, bind_of_ok gathered, bind_of_ok closes]
  rfl

/-- What a block gives that has one line is what its loop gathers from the line alone. -/
theorem block_gives_alone {last : Token} (isOpening : opening.kind = .braceOpen)
    (isClosing : closing.kind = .braceClose) (isLast : last.kind = .endOfInput) (line : Line) :
    Gathers.GivesAlone (fun depth => statementRound (productions depth) setting) .braceClose line
      (parseBlock setting (opening :: (line.tokens ++ [closing, last]))) := by
  have ready : Terminated [last] := ⟨[], last, rfl, isLast, by simp⟩
  obtain ⟨kept, after, next, behind, gathered, shape, isNext⟩ :=
    block_gathered setting opening isClosing [line] [] ready (Nat.le_refl _)
  rw [List.flatMap_singleton] at gathered
  have given :
      parseBlock setting (opening :: (line.tokens ++ [closing, last])) =
        ⟨kept, after.errors⟩ := by
    rw [parseBlock, Cursor.ofTokens, block_of_rounds isOpening gathered shape isNext]
  rw [given]
  exact ⟨closing, [last], _, _, some opening, after, isClosing, gathered, rfl⟩

/--
Lines are read independently.  A program of plain lines gives, line by line, the
statements that each line gives as a program of its own, and reports the errors
of each line in this order.  A block of plain lines, wherever it stands, gives
what blocks of the single lines give.  No line hides, changes or adds a
statement or an error of another one.
-/
theorem lines_read_independently
    (lines : List Line)
    {last : Token}
    (isLast : last.kind = .endOfInput) :
    parse (lines.flatMap Line.tokens ++ [last]) =
        ⟨lines.flatMap fun line => (parse (line.tokens ++ [last])).statements,
          lines.flatMap fun line => (parse (line.tokens ++ [last])).errors⟩ ∧
      ∀ (setting : Setting) (opening closing : Token),
        opening.kind = .braceOpen →
        closing.kind = .braceClose →
        let alone (line : Line) : Parsed :=
          parseBlock setting (opening :: (line.tokens ++ [closing, last]))
        ∀ (previous : Option Token) (rest : List Token) (before : List GrammarError)
          (depth : Nat),
          Terminated rest →
          (opening :: (lines.flatMap Line.tokens ++ closing :: rest)).length ≤ depth →
          block (productions depth) setting
              ⟨previous, opening :: (lines.flatMap Line.tokens ++ closing :: rest), before⟩ =
            .ok ⟨opening, lines.flatMap fun line => (alone line).statements, closing⟩
              ⟨some closing, rest, before ++
                lines.flatMap fun line => (alone line).errors⟩ := by
  constructor
  · have gives :
        ∀ line ∈ lines,
          Gathers.GivesAlone (fun depth => programRound (productions depth)) .endOfInput line
            (parse (line.tokens ++ [last])) := by
      intro line _
      obtain ⟨depth, count, after, gathered, recorded⟩ := program_gathered [line] isLast
      rw [List.flatMap_singleton] at gathered recorded
      exact ⟨last, [], depth, count, none, after, isLast, gathered, recorded⟩
    obtain ⟨depth, count, after, gathered, recorded⟩ := program_gathered lines isLast
    obtain ⟨statements, _, rfl⟩ := programRound_gathers.lines gives isLast gathered
    exact congr (congrArg Parsed.mk statements) recorded.symm
  · intro setting opening closing isOpening isClosing alone previous rest before depth ready enough
    obtain ⟨kept, after, _, _, gathered, -, -⟩ :=
      block_gathered setting opening isClosing lines before ready enough
    obtain ⟨rfl, _, rfl⟩ :=
      (statementRound_gathers setting).lines
        (fun line _ => block_gives_alone isOpening isClosing isLast line) isClosing gathered
    exact block_of_rounds isOpening gathered rfl isClosing

/--
Behind a line that is no statement, a line with a statement is read as it is
read alone, in a program and in a block.
-/
theorem lines_read_independently_behind_error :
    let stray : Token := ⟨.bracketClose, "]", .start, .none⟩
    let leave : Token := ⟨.kwBreak, "break", .start, .none⟩
    let ending : Token := ⟨.lineEnd, "\n", .start, .none⟩
    let opening : Token := ⟨.braceOpen, "\x7b", .start, .none⟩
    let closing : Token := ⟨.braceClose, "\x7d", .start, .none⟩
    let last : Token := ⟨.endOfInput, "", .start, .none⟩
    parse [stray, ending, leave, ending, last] =
        ⟨[.leave leave], [⟨stray, .expectedExpression⟩]⟩ ∧
      block (productions 7) .block
          ⟨none, [opening, stray, ending, leave, ending, closing, last], []⟩ =
        .ok ⟨opening, [.leave leave], closing⟩
          ⟨some closing, [last], [⟨stray, .expectedExpression⟩]⟩ := by
  intro stray leave ending opening closing last
  let malformed : Line := ⟨[stray], ending, by simp, by simp [Plain, stray, spanningKinds], rfl⟩
  let breaking : Line := ⟨[leave], ending, by simp, by simp [Plain, leave, spanningKinds], rfl⟩
  have isLast : last.kind = .endOfInput := rfl
  obtain ⟨program, blocks⟩ := lines_read_independently [malformed, breaking] isLast
  refine ⟨program, ?_⟩
  exact blocks .block opening closing rfl rfl none [last] [] 7 ⟨[], last, rfl, rfl, by simp⟩
    (Nat.le_refl _)

end Grammar

end ArrowScript

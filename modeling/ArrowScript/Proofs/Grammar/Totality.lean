import ArrowScript.Proofs.Grammar.Ledger
import ArrowScript.Proofs.Token.Stream

namespace ArrowScript

/-!
# Parsing always ends

The productions may be entered as often as there are tokens, since a token is
read between two entries.  So a program is read to the end of the input
whatever is wrong with it: no statement is abandoned for good, no token is
asked for that is not there, and the rounds suffice.
-/

open Braces
open scoped List

namespace Grammar

open ArrowScript.Parser

variable {rules : Productions} {bound : Nat} {clean : Prop} {cursor : Cursor}

def statementContents (stmts : List Stmt) : List Token :=
  stmts.flatMap Stmt.contents

/-- The cursor stands in front of the end of the input. -/
def AtEnd (cursor : Cursor) : Prop :=
  ∃ last, cursor.rest = [last] ∧ last.kind = .endOfInput

/--
A round of a program adds statements.  It reads a token or is the last one, in
front of the end of the input.
-/
theorem programRound_lands (sound : Accountable clean rules bound) (stmts : List Stmt) :
    Lands clean (bound + 1) (programRound rules stmts) cursor (fun round read after =>
        round.Holds (fun next => (¬ clean → read ≠ []) ∧ ∃ added, next = stmts ++ added ∧
                  Takes clean ((Facet.stmt clean .top).list.Renders added) read after)
          (fun result => result = stmts ∧ read = [] ∧ Ended after.rest))
      (fun _ _ => False) := by
  unfold programRound
  apply Lands.check_bind
  · intro last rest shape isEnd
    exact Lands.pure ⟨rfl, rfl, last, rest, shape, by simpa using isEnd⟩
  intro token rest shape notEnd
  apply (Lands.attempt (declaration_accounts sound .top)).bind
  rintro (_ | statement) read after reads _ attempted
  · obtain ⟨-, hasErrors⟩ := attempted
    apply (Accounts.synchronize_lands (by simp)).bind
    rintro _ passed between passes - ⟨-, promise⟩
    apply Accounts.skipLineEnds_lands.bind
    intro _ skipped final skips _ _
    have stillErrors : final.errors ≠ [] :=
      fun noErrors => hasErrors ((passes.trans skips).errors_eq_nil noErrors)
    apply Lands.pure
    simp only [List.append_nil]
    refine ⟨fun _ => ?_, [], (List.append_nil _).symm, ?_⟩
    · by_cases nothingRead : read = []
      · have sameRest : after.rest = token :: rest := by
          rw [← shape, reads.rest_eq, nothingRead, List.nil_append]
        have passedSome : passed ≠ [] :=
          promise token rest sameRest (by simpa using notEnd) (by simp)
        simp [passedSome]
      · simp [nothingRead]
    · have nothing : Takes clean ((Facet.stmt clean .top).list.Renders []) [] cursor :=
        .of_read (List.Sublist.refl _) rfl (by simp)
      exact nothing.pass stillErrors
  · apply Accounts.skipLineEnds_lands.bind
    intro _ skipped final skips _ blank
    apply Lands.pure
    simp only [List.append_nil]
    refine ⟨fun notClean => ?_, [statement], rfl, attempted.takes.append skips blank.takes ?_⟩
    · have readSome := attempted.takes.ne_nil (fun _ yields => yields.1) notClean
      simp [readSome]
    · intro held heldLater yields blank
      simp_all [Blank]

/-- A program renders the tokens up to the end of the input. -/
theorem program_lands (clean : Prop) (depth : Nat) (cursor : Cursor) :
    Lands clean depth (program depth) cursor (fun stmts read after =>
        Takes clean ((Facet.stmt clean .top).list.Renders stmts) read after ∧ Ended after.rest)
      (fun _ _ => False) := by
  unfold program
  apply Accounts.skipLineEnds_lands.bind
  intro _ skipped start skips _ blank
  have nothing : Takes clean ((Facet.stmt clean .top).list.Renders []) skipped start :=
    blank.takes.mono fun _ noneHeld => by simp_all [Blank]
  refine Lands.rounds
    (fun stmts earlier between =>
      Takes clean ((Facet.stmt clean .top).list.Renders stmts) earlier between)
    (fun stmts read after =>
      Takes clean ((Facet.stmt clean .top).list.Renders stmts) read after ∧ Ended after.rest)
    (fun _ _ => False) ?_ (Nat.le_succ depth) skips nothing
  intro stmts earlier between _ takes
  apply ((programRound_lands (productions_forming clean depth) stmts).le (by omega)).mono
  · rintro (next | result) read after reads holds
    · obtain ⟨moves, added, rfl, takesOn⟩ := holds
      exact ⟨moves, takes.append reads takesOn fun _ _ => Facet.list_append⟩
    · obtain ⟨rfl, rfl, ended⟩ := holds
      refine ⟨?_, ended⟩
      have unchanged : Takes clean Blank [] after := .of_read (List.Sublist.refl _) rfl rfl
      exact takes.append reads unchanged fun _ _ renders blank => by simp_all [Blank]
  · exact fun _ _ _ impossible => impossible

theorem program_reads {tokens : List Token} (ready : Terminated tokens) :
    ∃ stmts read cursor, program tokens.length (.ofTokens tokens) = .ok stmts cursor ∧
      (Cursor.ofTokens tokens).Reads read cursor ∧ statementContents stmts <+ read ∧
      AtEnd cursor := by
  obtain ⟨stmts, read, cursor, ended, reads, takes, last, rest, shape, isEnd⟩ :=
    (program_lands False tokens.length (.ofTokens tokens)).exists_ok ⟨ready, Nat.le_refl _⟩
  obtain ⟨_, sublist, -, rfl, -⟩ := takes.exists_sublist
  have cursorReady := reads.terminated ready
  rw [shape] at cursorReady
  obtain rfl := cursorReady.rest_eq_nil isEnd
  exact ⟨stmts, read, cursor, ended, reads, sublist, last, shape, isEnd⟩

theorem contents_parse_sublist {tokens : List Token} (ready : Terminated tokens) :
    statementContents (parse tokens).statements <+ tokens := by
  obtain ⟨stmts, read, cursor, ended, reads, covered, -⟩ := program_reads ready
  have whole : tokens = read ++ cursor.rest :=
    reads.rest_eq
  unfold parse
  rw [ended, whole]
  exact covered.trans (List.sublist_append_left _ _)

/-- A parser that stops without a result has abandoned its statement. -/
def OnlyAbandons (parser : Parser α) (cursor : Cursor) : Prop :=
  ∀ stop after, parser cursor = .error stop after → stop = .abandoned

/-- A round behind which another one follows leaves fewer tokens than it found. -/
def Progresses (round : Parser (Parser.Round σ α)) (cursor : Cursor) : Prop :=
  ∀ next after,
    round cursor = .ok (.again next) after →
    after.rest.length < cursor.rest.length

theorem progresses_of_lands {round : Parser (Parser.Round σ α)}
    {returns : Parser.Round σ α → List Token → Cursor → Prop}
    {abandons : List Token → Cursor → Prop}
    (lands : Lands clean bound round cursor returns abandons)
    (moves : ∀ next read after, returns (.again next) read after → read ≠ []) :
    Progresses round cursor := by
  intro next after goesOn
  obtain ⟨read, reads, holds⟩ := lands.of_ok goesOn
  have moved := List.length_pos_iff.mpr (moves next read after holds)
  have total := reads.length_rest
  omega

/--
Reading a program is total.  The tokens of every text are terminated, and every
terminated list of tokens is read to its end with nothing abandoned for good.
Wherever the cursor stands on the way, every production ends or abandons its
statement, and every round of a program or of a block reads a token unless it
is the last one.
-/
theorem parse_total :
    (∀ source, Terminated (lex source).tokens) ∧
      ∀ tokens, Terminated tokens →
        (∃ statements cursor,
          program tokens.length (.ofTokens tokens) = .ok statements cursor ∧
            parse tokens = ⟨statements, cursor.errors⟩ ∧
            AtEnd cursor) ∧
        ∀ read cursor, (Cursor.ofTokens tokens).Reads read cursor →
          (∀ kept,
            (∃ round after,
              programRound (Grammar.productions tokens.length) kept cursor = .ok round after) ∧
              Progresses (programRound (Grammar.productions tokens.length) kept) cursor) ∧
          ∀ depth, cursor.rest.length < depth → ∀ setting,
            OnlyAbandons ((Grammar.productions depth).declaration setting) cursor ∧
              OnlyAbandons (Grammar.productions depth).expression cursor ∧
              OnlyAbandons (Grammar.productions depth).operand cursor ∧
              OnlyAbandons (Grammar.productions depth).unary cursor ∧
              (read ≠ [] → ∀ kept,
                OnlyAbandons (statementRound (Grammar.productions depth) setting kept) cursor ∧
                  Progresses
                    (statementRound (Grammar.productions depth) setting kept) cursor) := by
  refine ⟨lex_terminated, ?_⟩
  intro tokens ready
  refine ⟨?_, ?_⟩
  · obtain ⟨statements, read, cursor, ended, -, -, atEnd⟩ := program_reads ready
    exact ⟨statements, cursor, ended, by simp [parse, ended], atEnd⟩
  intro read cursor reads
  have cursorReady := reads.terminated ready
  refine ⟨?_, ?_⟩
  · intro kept
    have lands : Lands False _ (programRound (Grammar.productions tokens.length) kept) cursor _ _ :=
      programRound_lands (productions_forming False tokens.length) kept
    have short : cursor.rest.length ≤ tokens.length := reads.length_le (Nat.le_refl _)
    have fits : cursor.Fits (tokens.length - 1 + 1) := ⟨cursorReady, by omega⟩
    obtain ⟨round, _, after, ended, -, -⟩ := lands.exists_ok fits
    exact ⟨⟨round, after, ended⟩, progresses_of_lands lands fun _ _ _ holds => holds.1 id⟩
  · intro depth short setting
    have sound := productions_forming False depth
    have fits : cursor.Fits (depth - 1) := ⟨cursorReady, Nat.le_sub_one_of_lt short⟩
    refine ⟨fun _ _ => Lands.stop_eq_abandoned (sound.declaration setting cursor) fits,
      fun _ _ => Lands.stop_eq_abandoned (sound.expression cursor) fits,
      fun _ _ => Lands.stop_eq_abandoned (sound.operand cursor) fits,
      fun _ _ => Lands.stop_eq_abandoned (sound.unary cursor) fits, ?_⟩
    intro moved kept
    have lands := statementRound_lands sound setting kept (reads.previous_isSome (.inr moved))
    exact ⟨fun _ _ => lands.stop_eq_abandoned fits,
      progresses_of_lands lands fun _ _ _ holds => holds.1 id⟩

/-- A program that is nothing but a stray closing brace is read to its end. -/
theorem parse_total_stray_brace :
    let brace : Token := ⟨.braceClose, "\x7d", .start, .none⟩
    let last : Token := ⟨.endOfInput, "", .start, .none⟩
    Terminated [brace, last] ∧
      ∃ statements cursor,
        program 2 (.ofTokens [brace, last]) = .ok statements cursor ∧
          AtEnd cursor := by
  intro brace last
  have ready : Terminated [brace, last] :=
    ⟨[brace], last, rfl, rfl, by simp [brace]⟩
  obtain ⟨⟨statements, cursor, ended, -, atEnd⟩, -⟩ := parse_total.2 [brace, last] ready
  exact ⟨ready, statements, cursor, ended, atEnd⟩

end Grammar

end ArrowScript

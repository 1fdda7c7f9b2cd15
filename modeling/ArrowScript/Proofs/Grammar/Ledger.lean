import ArrowScript.Proofs.Grammar.Accounting
import ArrowScript.Proofs.Tree.Form

namespace ArrowScript

/-!
# Every production accounts for its tokens

Whatever list of tokens a production reads, and whatever errors it records on
the way, the tree it gives is well formed.  Its contents are among the tokens
read, in their order.  Of the tokens that carry meaning it stores every one that
recovery did not pass over, once and in order.

A production that gives a tree holds at least one token.  So a production
entered again inside another one finds fewer tokens, and so does every round of
a loop: every production ends on a terminated list of tokens.

Two productions read braces of their own: a block and a match expression.
Behind its opening brace each of them stops right behind the brace that closes
it, or at the end of the input.
-/

open Braces
open scoped List

/-- A statement is well formed, and it may stand in its setting. -/
def Stmt.FitsIn (clean : Prop) (setting : Setting) (stmt : Stmt) : Prop :=
  stmt.Formed clean ∧ (setting = .group → clean → stmt.IsMember)

theorem Expr.level_le (expr : Expr) : expr.level ≤ 8 := by
  cases expr with
  | binary op left right => exact Nat.le_trans op.kind.level_le (by decide)
  | unary op operand => exact Nat.le_succ 7
  | _ => exact Nat.le_refl 8

namespace Grammar

open ArrowScript.Parser

/-- What is said of trees of one kind: the tokens they hold and store, and their form. -/
structure Facet (α : Type) where
  clean : Prop
  contents : α → List Token
  stored : α → List Token
  Formed : α → Prop

namespace Facet

variable {α β : Type}

/-- A tree is well formed; it holds what is held, and it stores the meaning of it. -/
@[simp]
def Renders (facet : Facet α) (tree : α) (held : List Token) : Prop :=
  facet.Formed tree ∧
    facet.contents tree = held ∧
    meaning facet.clean (facet.stored tree) = meaning facet.clean held

/-- A tree that holds a token. -/
@[simp]
def Yields (facet : Facet α) (tree : α) (held : List Token) : Prop :=
  held ≠ [] ∧ facet.Renders tree held

/-- A tree made of another one and of what is held behind it. -/
@[simp]
def Extends (base : Facet α) (start : α) (facet : Facet β) (tree : β)
    (held : List Token) : Prop :=
  base.Renders start (base.contents start) → facet.Renders tree (base.contents start ++ held)

@[simp]
def list (facet : Facet α) : Facet (List α) where
  clean := facet.clean
  contents trees := trees.flatMap facet.contents
  stored trees := trees.flatMap facet.stored
  Formed trees := ∀ tree ∈ trees, facet.Formed tree

theorem list_append {facet : Facet α} {first second : List α} {held heldLater : List Token}
    (renders : facet.list.Renders first held) (rendersOn : facet.list.Renders second heldLater) :
    facet.list.Renders (first ++ second) (held ++ heldLater) := by
  obtain ⟨formed, rfl, stored⟩ := renders
  obtain ⟨formedOn, rfl, storedOn⟩ := rendersOn
  refine ⟨?_, by simp, by simp_all⟩
  exact fun tree mem => (List.mem_append.mp mem).elim (formed tree) (formedOn tree)

/-- Expressions that bind at least as tight as a level. -/
@[simp]
def expr (clean : Prop) (low : Nat) : Facet Expr where
  clean := clean
  contents := Expr.contents
  stored := Expr.stored false
  Formed expr := expr.Formed clean .value ∧ low ≤ expr.level

@[simp]
def stmt (clean : Prop) (setting : Setting) : Facet Stmt where
  clean := clean
  contents := Stmt.contents
  stored := Stmt.stored false
  Formed := Stmt.FitsIn clean setting

@[simp]
def block (clean : Prop) (setting : Setting) : Facet Block where
  clean := clean
  contents := Block.contents
  stored := Block.stored false
  Formed body :=
    body.Formed clean ∧
      (setting = .group → clean → ∀ stmt ∈ body.statements, stmt.IsMember)

@[simp]
def arm (clean : Prop) : Facet Arm where
  clean := clean
  contents := Arm.contents
  stored := Arm.stored false
  Formed := Arm.Formed clean

/-- The branches of a conditional behind its keyword. -/
@[simp]
def branches (clean : Prop) (keyword : Token) : Facet (List Arm) :=
  { (arm clean).list with contents := fun trees => keyword :: trees.flatMap Arm.contents }

/-- The arms of a match and its last body. -/
@[simp]
def arms (clean : Prop) : Facet (List Arm × Option Block) where
  clean := clean
  contents trees := trees.1.flatMap Arm.contents ++ Block.optionContents trees.2
  stored trees := trees.1.flatMap (Arm.stored false) ++ Block.optionStored false trees.2
  Formed trees := Arm.ListFormed clean trees.1 ∧ Block.OptionFormed clean trees.2

@[simp]
def arrayItem (clean : Prop) : Facet ArrayItem where
  clean := clean
  contents := ArrayItem.contents
  stored := ArrayItem.stored false
  Formed := ArrayItem.Formed clean

@[simp]
def objectItem (clean : Prop) : Facet ObjectItem where
  clean := clean
  contents := ObjectItem.contents
  stored := ObjectItem.stored false
  Formed := ObjectItem.Formed clean

/-- Names that stand alone. -/
@[simp]
def names (clean : Prop) : Facet (List Token) where
  clean := clean
  contents tokens := tokens
  stored tokens := tokens
  Formed _ := True

end Facet

variable {clean : Prop} {bound : Nat} {cursor : Cursor}

/-- A loop renders what it holds if each of its rounds extends its state by what it holds. -/
theorem rounds_renders {body : σ → Parser (Parser.Round σ α)} {count : Nat} {state : σ}
    {given : Prop} {earlier : List Token} (ongoing : Facet σ) (facet : Facet α)
    (enough : bound ≤ count) (start : given → ongoing.Renders state earlier)
    (step : ∀ state cursor, Accounts clean bound (body state) cursor fun round held => round.Holds
      (fun next => held ≠ [] ∧ ongoing.Extends state ongoing next held)
      (fun result => ongoing.Extends state facet result held)) :
    Accounts clean bound (Parser.rounds body count state) cursor fun result held =>
      given → facet.Renders result (earlier ++ held) := by
  apply Accounts.rounds ongoing.Renders enough start
  intro current earlier cursor
  apply (step current cursor).mono
  rintro (next | result) held holds
  · refine ⟨holds.1, ?_⟩
    rintro ⟨formed, rfl, stored⟩
    exact holds.2 ⟨formed, rfl, stored⟩
  · rintro ⟨formed, rfl, stored⟩
    exact holds ⟨formed, rfl, stored⟩

/-- A tree whose first token is read in front of the rest of it. -/
theorem advance_yields {token : Token} {rest : List Token} {kind : Kind}
    {parser : Token → Parser α}
    {facet : Facet α} (shape : cursor.rest = token :: rest) (isKind : token.kind = kind)
    (plain : kind.isPlain = true)
    (accounts : ∀ after, Accounts clean bound (parser token) after fun tree held =>
      facet.Renders tree (token :: held)) :
    Accounts clean (bound + 1) (advance >>= parser) cursor facet.Yields := by
  apply Accounts.advance_bind (.self token) shape isKind plain
  intro after
  exact (accounts after).mono fun _ _ renders => ⟨by simp, renders⟩

/-- Productions that account for the tokens they read, if at most `bound` of them stand in front. -/
structure Accountable (clean : Prop) (rules : Productions) (bound : Nat) : Prop where
  rounds : bound ≤ rules.rounds
  declaration : ∀ setting cursor, Accounts clean bound (rules.declaration setting) cursor
    (Facet.stmt clean setting).Yields
  expression : ∀ cursor, Accounts clean bound rules.expression cursor (Facet.expr clean 0).Yields
  operand : ∀ cursor, Accounts clean bound rules.operand cursor (Facet.expr clean 0).Yields
  unary : ∀ cursor, Accounts clean bound rules.unary cursor (Facet.expr clean 7).Yields

variable {rules : Productions} {opening : Token}

theorem commaStartsItem_looks {comma : Token} {rest : List Token}
    (shape : cursor.rest = comma :: rest) (isComma : comma.kind = .comma) :
    Looks commaStartsItem cursor := by
  unfold commaStartsItem
  apply Looks.peekNext.bind
  intro next looked
  split
  · exact .pure _
  split
  · rename_i isKey
    refine Looks.bind ?_ fun _ _ => .pure _
    -- A comma has a token behind it, and a key has one behind it as well.
    rcases rest with _ | ⟨second, _ | ⟨third, later⟩⟩
    · simp only [peekNext, shape] at looked
      cases looked
      simp [isComma, keyKinds] at isKey
    · refine .inr ⟨by simp [peekThird, shape], fun ready => ?_⟩
      simp only [peekNext, shape] at looked
      cases looked
      rw [shape] at ready
      have inside : next.kind ≠ .endOfInput := fun isEnd => by simp [isEnd, keyKinds] at isKey
      obtain ⟨_, _, impossible⟩ := ((ready.tail (by simp [isComma])).tail inside).exists_cons
      cases impossible
    · exact .inl ⟨third, by simp [peekThird, shape]⟩
  · exact .pure _

theorem startsObject_looks : Looks startsObject cursor := by
  unfold startsObject
  apply (Looks.check _).bind
  intro isMark _
  split
  · exact .pure _
  apply (Looks.check _).bind
  intro isKey _
  split
  · exact Looks.peekNext.bind fun _ _ => Looks.pure _
  · exact .pure _

/-- The tokens read behind an opening brace end with its partner, or with the input. -/
def Closes (read : List Token) (after : Cursor) : Prop :=
  (∃ closing, ClosedBy 0 closing read) ∨ ∃ left, level? 0 read = some left ∧
    Ended after.rest

namespace Closes

variable {between after : Cursor} {earlier read : List Token}

/-- With the opening brace in front no brace is closed too many. -/
theorem levels (closes : Closes read after)
    (isOpening : opening.kind = .braceOpen) : Levels (opening :: read) after := by
  rcases closes with ⟨closing, closed⟩ | ⟨left, reaches, ended⟩
  · exact ⟨0, closed.level?_eq isOpening, .inl rfl⟩
  · refine ⟨left + 1, ?_, .inr ended⟩
    rw [level?_cons, step?_opening isOpening]
    exact level?_more 1 reaches

theorem append (levels : Levels earlier between) (reads : between.Reads read after)
    (closes : Closes read after) : Closes (earlier ++ read) after := by
  obtain ⟨left, reaches, rfl | ended⟩ := levels
  · rcases closes with ⟨closing, closed⟩ | ⟨rest, reachesOn, ended⟩
    · exact .inl ⟨closing, closed.append reaches⟩
    · exact .inr ⟨rest, (level?_append reaches).trans reachesOn, ended⟩
  · obtain rfl := reads_nothing ended reads
    refine .inr ⟨left, ?_, ended_of_reads ended reads⟩
    rwa [List.append_nil]

end Closes

/-- Passing over the rest of a match stops behind its closing brace. -/
theorem skipToClosingBrace_lands {abandons : List Token → Cursor → Prop} :
    Lands clean bound skipToClosingBrace cursor
      (fun _ read after => Closes read after) abandons := by
  unfold Lands skipToClosingBrace
  cases found : pastBrace 1 cursor.previous cursor.rest with
  | none => exact .inr fun fits => pastBrace_ne_none _ _ fits.ready found
  | some target =>
    obtain ⟨read, passes, closes⟩ := pastBrace_passes found
    exact ⟨read, passes.reads rfl, closes⟩

theorem takes_brace {post : List Token → Prop} {read hold : List Token} {between after : Cursor}
    {closing : Token} (takes : Takes clean post read between)
    (closes : between.Reads [closing] after) (heldAs : HeldAs closing hold) :
    Takes clean (fun held => ∃ inner, post inner ∧ held = inner ++ hold)
      (read ++ [closing]) after := by
  refine takes.append closes (.of_read heldAs.sublist heldAs.keeps rfl) ?_
  rintro held _ holds rfl
  exact ⟨held, holds, rfl⟩

/-- A stretch of interpolated text holds its own token, unless it is empty. -/
theorem stretchParts_heldAs (token : Token) (isText : token.kind ∈ [Kind.text]) :
    HeldAs token (Expr.listContents (stretchParts token)) := by
  unfold stretchParts
  split
  · rename_i isEmpty
    refine ⟨List.nil_sublist _, ?_⟩
    simp_all [Token.kept, Token.isContent, contentKinds]
  · simpa using HeldAs.self token

theorem stretchParts_renders (clean : Prop) (token : Token) :
    (Facet.expr clean 0).list.Renders (stretchParts token)
      (Expr.listContents (stretchParts token)) := by
  unfold stretchParts
  split
  · simp
  · simp [Expr.Formed]

theorem interpolationParts_stop {first : Token} {parts : List Expr} {after : Cursor}
    (ended : interpolationParts rules first cursor = .ok parts after) :
    ∃ token rest, after.rest = token :: rest ∧ token.kind = .textEnd := by
  obtain ⟨last, between, done⟩ := rounds_done ended
  obtain ⟨answer, here, looked, done⟩ := bind_eq_ok done
  obtain ⟨token, rest, rfl, shape, rfl⟩ := check_eq_ok looked
  by_cases isEnd : token.kind = .textEnd
  · rw [if_pos (by simp [isEnd])] at done
    cases done
    exact ⟨token, rest, shape, isEnd⟩
  · rw [if_neg (by simpa using isEnd)] at done
    -- A round that reads on is not the last one.
    obtain ⟨_, _, -, done⟩ := bind_eq_ok done
    obtain ⟨_, _, -, done⟩ := bind_eq_ok done
    cases done

@[simp]
theorem stored_asGroup (copies : Bool) (expr : Expr) :
    (asGroup expr).stored copies = expr.stored copies := by
  cases expr <;> rfl

@[simp]
theorem contents_asGroup (expr : Expr) : (asGroup expr).contents = expr.contents := by
  cases expr <;> rfl

/-- A tight expression whose value is needed may precede `::`, a variable as a group's name. -/
theorem asGroup_formed {expr : Expr} (formed : expr.Formed clean .value) (tight : expr.level = 8) :
    (asGroup expr).level = 8 ∧ (asGroup expr).Formed clean .base := by
  cases expr with
  | binary op left right =>
    have loose : op.kind.level ≤ 6 := op.kind.level_le
    simp only [Expr.level] at tight
    omega
  | unary op operand =>
    cases tight
  | groupName name =>
    cases formed
  | functionName name =>
    cases formed
  | _ =>
    simp_all [asGroup, Expr.level, Expr.Formed]

/-- Layers hold the operators of one level after another, from the given level on. -/
def Ascending : Nat → List (List Kind) → Prop
  | low, [] => low = 7
  | low, operators :: tighter =>
    low ≠ 0 ∧ (∀ kind, kind ∈ operators ↔ kind.level = low) ∧
      Ascending (low + 1) tighter

theorem layers_ascending : Ascending 1 layers := by
  refine ⟨by decide, ?_, by decide, ?_, by decide, ?_, by decide, ?_, by decide, ?_, by decide,
    ?_, rfl⟩
  all_goals
    intro kind
    cases kind <;> decide

theorem isMember_of_declares_or_imports {statement : Stmt}
    (allowed : (statement.declares || statement.imports) = true) : statement.IsMember := by
  cases statement <;> simp_all [Stmt.IsMember]

/-- Statements are read up to a closing brace. -/
abbrev StopsAtBrace (clean : Prop) (setting : Setting) (stmts : List Stmt) (read : List Token)
    (after : Cursor) : Prop :=
  Tallies clean ((Facet.stmt clean setting).list.Renders stmts) read after ∧
    ∃ token rest, after.rest = token :: rest ∧ token.kind = .braceClose

theorem endStatement_accounts : Accounts clean bound endStatement cursor fun _ => Blank := by
  unfold endStatement
  apply Accounts.acceptMark_bind (by decide) (by decide)
  · exact fun _ _ => .pure rfl
  apply Accounts.check_bind
  · exact fun _ _ _ _ => .pure rfl
  · exact fun _ _ _ _ => .peek_bind fun _ _ _ => .abandon

section

variable (sound : Accountable clean rules bound) {keyword : Token}

include sound

theorem parameters_accounts :
    Accounts clean bound (parameters rules) cursor (Facet.names clean).Renders := by
  unfold parameters
  apply Accounts.look_bind (Looks.check _)
  intro isEmpty
  split
  · exact .pure (by simp)
  apply Accounts.consume_bind (by decide)
  intro first _ _
  refine (rounds_renders (Facet.names clean) (Facet.names clean) sound.rounds
    (fun _ : True => (by simp : (Facet.names clean).Renders [first] [first])) ?_).mono
    fun _ _ renders => renders trivial
  intro names _
  apply Accounts.acceptMark_bind (by decide) (by decide)
  · intro comma _
    apply Accounts.consume_bind (by decide)
    intro name _ _
    exact .pure ⟨by simp, by simp⟩
  · exact .pure (by simp [Round.Holds])

variable (setting : Setting)

/--
A round of a block adds statements.  It reads a token or is the last one, in
front of a closing brace, and it is abandoned at the end of the input only.
When a statement is abandoned before anything of it was read, recovery reads its
first token, because the closing brace and the end of the input were ruled out
before.
-/
theorem statementRound_lands (stmts : List Stmt) (moved : cursor.previous.isSome) :
    Lands clean bound (statementRound rules setting stmts) cursor
      (fun round read after => round.Holds (fun next => (¬ clean → read ≠ []) ∧ ∃ added,
                next = stmts ++ added ∧
                  Tallies clean ((Facet.stmt clean setting).list.Renders added) read after)
          (fun result => result = stmts ∧ Tallies clean Blank read after ∧
              ∃ token rest, after.rest = token :: rest ∧ token.kind = .braceClose))
      (fun read after => Levels read after ∧ Ended after.rest ∧ after.errors ≠ []) := by
  unfold statementRound
  apply Accounts.skipLineEnds_lands.bind
  intro _ skipped start skips _ blank
  apply Lands.check_bind
  · intro token rest shape isClosing
    apply Lands.pure
    rw [List.append_nil]
    exact ⟨rfl, blank, token, rest, shape, by simpa using isClosing⟩
  intro token rest shape notClosing
  apply Lands.check_bind
  · intro last behind atEnd isEnd
    apply Lands.peek_bind
    intro _ _ _
    apply Lands.abandon_bind
    intro after same hasErrors
    rw [List.append_nil]
    refine ⟨blank.levels.of_rest_eq same, ⟨last, behind, ?_, by simpa using isEnd⟩,
      hasErrors⟩
    rw [same, atEnd]
  intro _ _ again notEnd
  cases shape.symm.trans again
  apply (Lands.attempt (sound.declaration setting start)).bind
  rintro (_ | statement) read after reads _ attempted
  · obtain ⟨levels, hasErrors⟩ := attempted
    have stopMoved : after.previous.isSome := (skips.trans reads).previous_isSome (.inl moved)
    apply (Accounts.synchronize_lands fun _ => stopMoved).bind
    rintro _ passed final passes - ⟨levelsOn, promise⟩
    have stillErrors : final.errors ≠ [] :=
      fun noErrors => hasErrors (passes.errors_eq_nil noErrors)
    apply Lands.pure
    simp only [List.append_nil]
    refine ⟨fun _ => ?_, [], (List.append_nil _).symm, ?_, ?_⟩
    · by_cases nothingRead : read = []
      · have sameRest : after.rest = token :: rest := by
          rw [← shape, reads.rest_eq, nothingRead, List.nil_append]
        have passedSome : passed ≠ [] :=
          promise token rest sameRest (by simpa using notEnd) (by simpa using notClosing)
        simp [passedSome]
      · simp [nothingRead]
    · exact blank.levels.append (reads.trans passes) (levels.append passes (levelsOn rfl))
    · have nothing : Takes clean ((Facet.stmt clean setting).list.Renders []) skipped start :=
        blank.takes.mono fun _ noneHeld => by simp_all [Blank]
      exact nothing.pass stillErrors
  · apply Lands.pure
    simp only [List.append_nil]
    refine ⟨fun notClean => ?_, [statement], rfl, blank.append reads attempted ?_⟩
    · have readSome := attempted.takes.ne_nil (fun _ yields => yields.1) notClean
      simp [readSome]
    · intro held heldLater blank yields
      simp_all [Blank]

theorem statements_lands (moved : cursor.previous.isSome) :
    Lands clean bound (statements rules setting) cursor (StopsAtBrace clean setting)
      (fun read after => Levels read after ∧ Ended after.rest ∧ after.errors ≠ []) := by
  have nothing : Tallies clean ((Facet.stmt clean setting).list.Renders []) [] cursor :=
    ⟨.nil, .of_read (List.Sublist.refl _) rfl (by simp)⟩
  refine Lands.rounds
    (fun statements earlier between =>
      Tallies clean ((Facet.stmt clean setting).list.Renders statements) earlier between)
    (StopsAtBrace clean setting)
    (fun read after => Levels read after ∧ Ended after.rest ∧ after.errors ≠ [])
    ?_ sound.rounds (.refl cursor) nothing
  intro statements earlier between reads tallies
  apply (statementRound_lands sound setting statements
    (reads.previous_isSome (.inl moved))).mono
  · rintro (next | result) read after readsOn holds
    · obtain ⟨moves, added, rfl, talliesOn⟩ := holds
      exact ⟨moves, tallies.append readsOn talliesOn fun _ _ => Facet.list_append⟩
    · obtain ⟨rfl, blank, stops⟩ := holds
      refine ⟨tallies.append readsOn blank ?_, stops⟩
      intro held heldLater renders blank
      simp_all [Blank]
  · rintro read after readsOn ⟨levels, atEnd, hasErrors⟩
    exact ⟨tallies.levels.append readsOn levels, atEnd, hasErrors⟩

theorem block_lands :
    Lands clean (bound + 1) (block rules setting) cursor (fun body read after => ∃ inside,
          read = body.opening :: inside ∧ body.opening.kind = .braceOpen ∧
            ClosedBy 0 body.closing inside ∧
            Takes clean ((Facet.block clean setting).Yields body) read after)
      (fun read after => Levels read after ∧ after.errors ≠ []) := by
  unfold block
  apply Lands.consume_bind (by decide) (Nat.le_refl _)
  · exact fun _ _ hasErrors => ⟨.nil, hasErrors⟩
  intro opening start opens isOpening
  replace isOpening : opening.kind = .braceOpen := by simpa using isOpening
  have inner : Lands clean bound (statements rules setting) start (StopsAtBrace clean setting)
      (fun read after => Levels ([opening] ++ read) after ∧ after.errors ≠ []) := by
    apply (statements_lands sound setting (opens.previous_isSome (.inr (by simp)))).mono
    · exact fun _ _ _ _ holds => holds
    · rintro read after - ⟨⟨left, reaches, -⟩, ended, hasErrors⟩
      refine ⟨⟨left + 1, ?_, .inr ended⟩, hasErrors⟩
      rw [List.singleton_append, level?_cons, step?_opening isOpening]
      exact level?_more 1 reaches
  apply inner.bind
  rintro statements read after reads - ⟨tallies, closing, rest, shape, isClosing⟩
  apply Lands.advance_bind shape (by simp [isClosing]) (Nat.le_succ _)
  intro final closes
  apply Lands.pure
  refine ⟨read ++ [closing], by simp, isOpening,
    ⟨read, rfl, tallies.levels.level?_eq shape (by simp [isClosing]), isClosing⟩, ?_⟩
  have openingNotKept : opening.kept = [] := kept_mark isOpening rfl
  have closingNotKept : closing.kept = [] := kept_mark isClosing rfl
  have opened : Takes clean (fun held => held = [opening]) [opening] start :=
    .of_read (.refl _) rfl rfl
  have inside := takes_brace tallies.takes closes (.mark isClosing rfl)
  refine opened.append (reads.trans closes) (inside.close List.getLast?_concat) ?_
  rintro _ _ rfl ⟨_, ⟨_, ⟨fits, rfl, stored⟩, rfl⟩, rfl, sameMeaning⟩
  have ordered := Block.contents_of_opening statements closing
    (by simp [isOpening] : opening.kind ≠ .arrow)
  refine ⟨by simp, ⟨?_, ?_⟩, by simp [ordered], by simp_all⟩
  · exact (Block.formed_iff _).mpr fun statement member => (fits statement member).1
  · exact fun isGroup isClean statement member => (fits statement member).2 isGroup isClean

theorem block_accounts :
    Accounts clean (bound + 1) (block rules setting) cursor
      (Facet.block clean setting).Yields := by
  apply (block_lands sound setting).mono
  · rintro body read after - ⟨inside, rfl, isOpening, closed, takes⟩
    exact ⟨⟨0, closed.level?_eq isOpening, .inl rfl⟩, takes⟩
  · exact fun _ _ _ holds => holds

/-- The closing token of a body behind `=>` is a copy, so it need not be recorded. -/
theorem body_accounts :
    Accounts clean bound (body rules) cursor (Facet.block clean .block).Renders := by
  unfold body
  apply (Accounts.acceptMark (by decide) (by decide)).bind
  intro _ _ start
  apply Accounts.check_bind
  · intro _ _ _ _
    apply (block_accounts sound .block).le.bind
    intro result held after
    apply Accounts.skipLineEnds.bind
    intro _ _ _
    apply Accounts.pure
    rintro rfl ⟨-, formed, rfl, stored⟩ rfl
    simp_all
  · intro _ _ _ _
    simp only [pure_bind]
    apply Accounts.consume_within (by decide) (fun token _ => .self token)
    intro arrow afterArrow arrowRead isArrow
    replace isArrow : arrow.kind = .fatArrow := by simpa using isArrow
    have arrowNotKept : arrow.kept = [] := kept_mark isArrow rfl
    apply (sound.declaration .block afterArrow).bind_previous
      (arrowRead.previous_isSome (.inr (by simp))) fun _ _ yields => yields.1
    intro stmt closing held after
    apply Accounts.skipLineEnds.bind
    intro _ _ _
    apply Accounts.pure
    rintro rfl ⟨-, formed, rfl, stored⟩ sameMeaning rfl
    have ordered :=
      Block.contents_of_opening [stmt] closing (by simp [isArrow] : arrow.kind ≠ .arrow)
    simp_all [Block.formed_iff, Stmt.FitsIn]

theorem arguments_accounts :
    Accounts clean bound (arguments rules) cursor (Facet.expr clean 0).list.Renders := by
  unfold arguments
  apply Accounts.acceptMark_bind (by decide) (by decide)
  · exact fun _ _ => .pure (by simp)
  apply Accounts.check_bind
  · exact fun _ _ _ _ => .pure (by simp)
  intro _ _ _ _
  apply (sound.operand cursor).bind
  intro first held start
  apply rounds_renders (Facet.expr clean 0).list (Facet.expr clean 0).list sound.rounds
  · rintro ⟨-, formed, rfl, stored⟩
    simp_all
  intro arguments cursor
  apply Accounts.check_bind
  · intro comma rest shape isComma
    replace isComma : comma.kind = .comma := by simpa using isComma
    apply Accounts.look_bind (commaStartsItem_looks shape isComma)
    intro startsItem
    split
    · exact .pure fun formed => by simp_all
    · apply Accounts.le
      apply Accounts.advance_bind (.mark ‹_› rfl) shape isComma rfl
      intro afterComma
      apply (sound.operand afterComma).bind
      intro argument _ _
      apply Accounts.pure
      rintro ⟨moved, formed, rfl, stored⟩
      refine ⟨by simp_all, fun others => ?_⟩
      simp_all [or_imp]
  · intro _ _ _ _
    apply (Accounts.acceptMark (by decide) (by decide)).bind
    intro _ _ _
    apply Accounts.pure
    rintro rfl formed
    simp_all

theorem arm_renders {condition : Parser Expr}
    (accounts : ∀ cursor, Accounts clean bound condition cursor (Facet.expr clean 0).Yields) :
    Accounts clean bound (do
        let condition ← condition
        let armBody ← body rules
        return (⟨condition, armBody⟩ : Arm))
      cursor (Facet.arm clean).Yields := by
  apply (accounts cursor).bind
  intro condition _ _
  apply (body_accounts sound).bind
  intro armBody _ _
  apply Accounts.pure
  rintro ⟨bodyFormed, rfl, bodyStored⟩ ⟨moved, formed, rfl, stored⟩
  simp_all [Arm.Formed]

/-- The arms of a match, its last body and the brace that closes it. -/
def ArmsClosed (clean : Prop) (arms : List Arm × Option Block × Token)
    (held : List Token) : Prop :=
  ∃ inner, (Facet.arms clean).Renders (arms.1, arms.2.1) inner ∧ held = inner ++ [arms.2.2]

theorem arms_lands : Lands clean bound (arms rules) cursor (fun arms read after =>
        ClosedBy 0 arms.2.2 read ∧ Takes clean (ArmsClosed clean arms) read after)
      (fun read after => Levels read after ∧ after.errors ≠ []) := by
  have noArms : Tallies clean ((Facet.arm clean).list.Renders []) [] cursor :=
    ⟨.nil, .of_read (List.Sublist.refl _) rfl (by simp)⟩
  unfold arms
  refine Lands.rounds
    (fun arms earlier between =>
      Tallies clean ((Facet.arm clean).list.Renders arms) earlier between)
    (fun (arms : List Arm × Option Block × Token) read after =>
      ClosedBy 0 arms.2.2 read ∧ Takes clean (ArmsClosed clean arms) read after)
    (fun read after => Levels read after ∧ after.errors ≠ [])
    ?_ sound.rounds (.refl cursor) noArms
  intro arms earlier between _ tallies
  apply Accounts.skipLineEnds_lands.bind
  intro _ skipped start skips _ blank
  have started : Tallies clean ((Facet.arm clean).list.Renders arms) (earlier ++ skipped) start :=
    tallies.append skips blank fun _ _ renders blank => by simp_all [Blank]
  simp only [← List.append_assoc]
  apply Lands.accept_bind (by decide) (Nat.le_succ _)
  · intro closing after closes isClosing
    replace isClosing : closing.kind = .braceClose := by simpa using isClosing
    have noBody : Takes clean ((Facet.arms clean).Renders (arms, none))
        (earlier ++ skipped) start :=
      started.takes.mono fun _ renders => by
        simpa [Arm.listFormed_iff, Block.OptionFormed] using renders
    apply Lands.pure
    rw [List.append_nil]
    exact ⟨⟨_, rfl, started.levels.level?_eq closes.rest_eq (by simp [isClosing]), isClosing⟩,
      takes_brace noBody closes (.self closing)⟩
  intro _ _ _ _
  apply Lands.check_bind
  · intro _ _ _ _
    apply Lands.peek_bind
    intro _ _ _
    apply Lands.abandon_bind
    intro after same hasErrors
    rw [List.append_nil]
    exact ⟨started.levels.of_rest_eq same, hasErrors⟩
  intro _ _ _ _
  apply Lands.accept_bind (by decide) (Nat.le_succ _)
  · intro keyword afterElse elses isElse
    replace isElse : keyword.kind = .kwElse := by simpa using isElse
    have elseTallies :
        Tallies clean ((Facet.arm clean).list.Renders arms) (earlier ++ skipped ++ [keyword])
          afterElse := by
      have elseOnly : Tallies clean Blank [keyword] afterElse :=
        ⟨.of_no_braces (by simp [isElse]),
          .of_read (List.nil_sublist _) (HeldAs.mark isElse rfl).keeps rfl⟩
      exact started.append elses elseOnly fun _ _ renders blank => by simp_all [Blank]
    simp only [← List.append_assoc]
    apply ((body_accounts sound).follow
      (fun otherwise => (Facet.arms clean).Renders (arms, some otherwise)) elseTallies ?_).bind
    rotate_left
    · rintro otherwise _ _ ⟨formed, rfl, stored⟩ ⟨bodyFormed, rfl, bodyStored⟩
      simp_all [Arm.listFormed_iff, Block.OptionFormed]
    rintro otherwise bodyRead afterBody - - ⟨-, bodyTallies⟩
    simp only [← List.append_assoc]
    apply Lands.consume_bind (by decide) (Nat.le_succ _)
    · intro after same hasErrors
      rw [List.append_nil]
      exact ⟨bodyTallies.levels.of_rest_eq same, hasErrors⟩
    intro closing after closes isClosing
    replace isClosing : closing.kind = .braceClose := by simpa using isClosing
    apply Lands.pure
    rw [List.append_nil]
    exact ⟨⟨_, rfl, bodyTallies.levels.level?_eq closes.rest_eq (by simp [isClosing]),
      isClosing⟩,
      takes_brace bodyTallies.takes closes (.self closing)⟩
  intro _ _ _ _
  have code :
      (do
        let condition ← rules.expression
        let armBody ← body rules
        return .again (arms ++ [⟨condition, armBody⟩]) :
          Parser (Parser.Round (List Arm) (List Arm × Option Block × Token))) =
        (do
          let condition ← rules.expression
          let armBody ← body rules
          return (⟨condition, armBody⟩ : Arm)) >>= fun arm =>
            pure (.again (arms ++ [arm])) := by
    simp only [bind_assoc, pure_bind]
  rw [Option.isSome_none, if_neg Bool.false_ne_true, code]
  apply ((arm_renders sound sound.expression).follow
    (fun arm => (Facet.arm clean).list.Renders (arms ++ [arm])) started ?_).bind
  rotate_left
  · rintro arm _ _ renders ⟨-, armRenders⟩
    exact Facet.list_append renders (by simpa using armRenders)
  rintro arm read after - - ⟨armTallies, allTallies⟩
  apply Lands.pure
  simp only [List.append_nil]
  refine ⟨fun notClean => ?_, allTallies⟩
  have readSome := armTallies.takes.ne_nil (fun _ yields => yields.1) notClean
  simp [readSome]

/-- The arms of a match and the recovery behind them stop behind the brace that closes it. -/
theorem closing_lands (cursor : Cursor) :
    Lands clean bound (onAbandon (arms rules) skipToClosingBrace) cursor
      (fun arms read after =>
        ClosedBy 0 arms.2.2 read ∧ Takes clean (ArmsClosed clean arms) read after)
      (fun read after => Closes read after ∧ after.errors ≠ []) := by
  apply (arms_lands sound).onAbandon
  rintro read after reads ⟨levels, hasErrors⟩
  apply skipToClosingBrace_lands.mono
  · intro _ later final readsOn closes
    exact ⟨closes.append levels readsOn, fun noErrors =>
      hasErrors (readsOn.errors_eq_nil noErrors)⟩
  · exact fun _ _ _ fails => fails

theorem choice_accounts (isKeyword : keyword.kind = .kwMatch) :
    Accounts clean bound (choice rules keyword) cursor fun expr held =>
      (Facet.expr clean 8).Renders expr (keyword :: held) := by
  unfold choice
  apply Lands.bind (sound.expression cursor)
  intro subject read between _ _ tallies
  apply Lands.consume_bind (by decide) (Nat.le_succ _)
  · intro after same hasErrors
    rw [List.append_nil]
    exact ⟨tallies.levels.of_rest_eq same, hasErrors⟩
  intro opening start opens isOpening
  replace isOpening : opening.kind = .braceOpen := by simpa using isOpening
  -- Both ends of a match read its closing brace, so both are balanced with its opening brace.
  have behind :
      Lands clean bound (onAbandon (arms rules) skipToClosingBrace) start
        (fun arms later final =>
          arms.2.2.kind = .braceClose ∧ Tallies clean (ArmsClosed clean arms)
            ([opening] ++ later) final)
        (fun later final => Levels (read ++ ([opening] ++ later)) final ∧
          final.errors ≠ []) := by
    apply (closing_lands sound start).mono
    · rintro arms later final readsOn ⟨closed, takes⟩
      have opened : Takes clean Blank [opening] start :=
        .of_read (List.nil_sublist _) (HeldAs.mark isOpening rfl).keeps rfl
      refine ⟨closed.choose_spec.2.2, ⟨0, closed.level?_eq isOpening, .inl rfl⟩, ?_⟩
      exact opened.append readsOn takes fun _ _ blank renders => by simp_all [Blank]
    · rintro later final readsOn ⟨closes, hasErrors⟩
      exact ⟨tallies.levels.append (opens.trans readsOn) (closes.levels isOpening), hasErrors⟩
  apply behind.bind
  rintro ⟨arms, otherwise, closing⟩ later final readsOn - ⟨isClosing, talliesOn⟩
  apply Lands.pure
  rw [List.append_nil]
  apply tallies.append (opens.trans readsOn) talliesOn
  rintro _ _ ⟨-, formed, rfl, stored⟩ ⟨_, ⟨armsFormed, rfl, armsStored⟩, rfl⟩
  have keywordNotKept : keyword.kept = [] := kept_mark isKeyword rfl
  have closingNotKept : closing.kept = [] := kept_mark isClosing rfl
  simp_all [Expr.Formed, Expr.level]

theorem arrayItems_accounts :
    Accounts clean bound (arrayItems rules) cursor (Facet.arrayItem clean).list.Renders := by
  refine (rounds_renders (Facet.arrayItem clean).list (Facet.arrayItem clean).list
    sound.rounds (fun _ : True => (by simp : Facet.Renders _ [] [])) ?_).mono
    fun _ _ renders => renders trivial
  intro items cursor
  apply (Accounts.acceptMark (by decide) (by decide)).bind
  intro mark _ start
  apply (sound.expression start).bind
  intro value _ _
  apply Accounts.acceptMark_bind (by decide) (by decide)
  · intro comma _
    apply Accounts.pure
    rintro ⟨moved, formed, rfl, stored⟩ rfl
    refine ⟨by simp_all, fun others => ?_⟩
    simp_all [or_imp, ArrayItem.Formed]
  · apply Accounts.pure
    rintro ⟨-, formed, rfl, stored⟩ rfl others
    simp_all [or_imp, ArrayItem.Formed]

theorem array_accounts (isOpening : opening.kind = .bracketOpen) :
    Accounts clean bound (array rules opening) cursor fun expr held =>
      (Facet.expr clean 8).Renders expr (opening :: held) := by
  have openingNotKept : opening.kept = [] := kept_mark isOpening rfl
  unfold array
  apply Accounts.check_bind
  · intro _ _ _ _
    simp only [↓reduceIte, pure_bind]
    apply Accounts.consumeStored_bind (by decide) (by decide)
    intro closing _ notKept
    apply Accounts.pure
    simp_all [Expr.Formed, Expr.level, ArrayItem.listFormed_iff]
  · intro _ _ _ _
    simp only [Bool.false_eq_true, ↓reduceIte]
    apply (arrayItems_accounts sound).bind
    intro items _ _
    apply Accounts.consumeStored_bind (by decide) (by decide)
    intro closing _ notKept
    apply Accounts.pure
    rintro ⟨formed, rfl, stored⟩
    simp_all [Expr.Formed, Expr.level, ArrayItem.listFormed_iff]

theorem objectItem_accounts :
    Accounts clean bound (objectItem rules) cursor (Facet.objectItem clean).Yields := by
  unfold objectItem
  apply Accounts.acceptMark_bind (by decide) (by decide)
  · intro mark start
    apply (sound.operand start).bind
    intro value _ _
    apply Accounts.pure
    rintro ⟨moved, formed, rfl, stored⟩
    simp_all [ObjectItem.Formed]
  · apply Accounts.consume_bind (by decide)
    intro key _ _
    apply Accounts.consumeMark_bind (by decide) (by decide)
    intro colon behind
    apply (sound.operand behind).bind
    intro value _ _
    apply Accounts.pure
    rintro ⟨moved, formed, rfl, stored⟩
    simp_all [ObjectItem.Formed]

theorem objectItems_accounts : Accounts clean bound (objectItems rules) cursor
      (Facet.objectItem clean).list.Renders := by
  refine (rounds_renders (Facet.objectItem clean).list (Facet.objectItem clean).list
    sound.rounds (fun _ : True => (by simp : Facet.Renders _ [] [])) ?_).mono
    fun _ _ renders => renders trivial
  intro items cursor
  apply (objectItem_accounts sound).bind
  intro item _ _
  apply Accounts.acceptMark_bind (by decide) (by decide)
  · intro comma _
    apply Accounts.pure
    rintro ⟨moved, formed, rfl, stored⟩
    refine ⟨by simp_all, fun others => ?_⟩
    simp_all [or_imp]
  · apply Accounts.pure
    rintro ⟨-, formed, rfl, stored⟩ others
    simp_all [or_imp]

theorem object_accounts (openingNotKept : opening.kept = []) :
    Accounts clean bound (object rules opening) cursor fun expr held =>
      (Facet.expr clean 8).Renders expr (opening :: held) := by
  unfold object
  apply Accounts.check_bind
  · intro _ _ _ _
    simp only [↓reduceIte, pure_bind]
    apply Accounts.consumeStored_bind (by decide) (by decide)
    intro closing _ notKept
    apply Accounts.pure
    simp_all [Expr.Formed, Expr.level, ObjectItem.listFormed_iff]
  · intro _ _ _ _
    simp only [Bool.false_eq_true, ↓reduceIte]
    apply (objectItems_accounts sound).bind
    intro items _ _
    apply Accounts.consumeStored_bind (by decide) (by decide)
    intro closing _ notKept
    apply Accounts.pure
    rintro ⟨formed, rfl, stored⟩
    simp_all [Expr.Formed, Expr.level, ObjectItem.listFormed_iff]

theorem parenthesized_accounts (isOpening : opening.kind = .parenOpen) :
    Accounts clean bound (parenthesized rules opening) cursor fun expr held =>
      (Facet.expr clean 8).Renders expr (opening :: held) := by
  have openingNotKept : opening.kept = [] := kept_mark isOpening rfl
  unfold parenthesized
  apply Accounts.look_bind startsObject_looks
  intro isObject
  split
  · exact object_accounts sound openingNotKept
  apply (sound.operand cursor).bind
  intro inner _ _
  apply Accounts.consumeStored_bind (by decide) (by decide)
  intro closing _ notKept
  apply Accounts.pure
  rintro ⟨-, formed, rfl, stored⟩
  simp_all [Expr.Formed, Expr.level]

theorem interpolationParts_accounts {first : Token} :
    Accounts clean bound (interpolationParts rules first) cursor fun parts held =>
      (Facet.expr clean 0).list.Renders parts (Expr.listContents (stretchParts first) ++ held) := by
  refine (rounds_renders (Facet.expr clean 0).list (Facet.expr clean 0).list sound.rounds
    (fun _ : True => (?_ : Facet.Renders _ _ _)) ?_).mono fun _ _ renders => renders trivial
  · exact stretchParts_renders clean first
  intro parts cursor
  apply Accounts.check_bind
  · exact fun _ _ _ _ => .pure fun formed => by simp_all
  · intro _ _ _ _
    apply (sound.expression cursor).bind
    intro embedded _ _
    apply Accounts.consume_within (by decide) stretchParts_heldAs
    intro text _ _ _
    apply Accounts.pure
    rintro ⟨moved, formed, rfl, stored⟩
    refine ⟨by simp_all, fun others => ?_⟩
    obtain ⟨stretchFormed, -, stretchStored⟩ := stretchParts_renders clean text
    simp_all [or_imp]

theorem interpolation_accounts (isOpening : opening.kind = .textStart) :
    Accounts clean bound (interpolation rules opening) cursor fun expr held =>
      (Facet.expr clean 8).Renders expr (opening :: held) := by
  have openingNotKept : opening.kept = [] := kept_mark isOpening rfl
  unfold interpolation
  apply Accounts.consume_within (by decide) stretchParts_heldAs
  intro first start _ _
  apply (interpolationParts_accounts sound).bind_within
  intro parts _ _ ended
  refine ⟨bound, fun _ => Nat.le_add_right _ _, ?_⟩
  obtain ⟨token, rest, shape, isEnd⟩ := interpolationParts_stop ended
  apply Accounts.le
  apply Accounts.advance_bind (.self token) shape isEnd rfl
  intro _
  apply Accounts.pure
  rintro ⟨formed, held, stored⟩
  have notKept : token.kept = [] := kept_mark isEnd rfl
  simp_all [Expr.Formed, Expr.level, Expr.listFormed_iff]

theorem primary_accounts :
    Accounts clean (bound + 1) (primary rules) cursor (Facet.expr clean 8).Yields := by
  unfold primary
  apply Accounts.peek_bind
  intro token rest shape
  split
  -- A single token that is an expression stores itself.
  any_goals
    exact advance_yields shape ‹_› rfl fun _ => .pure (by simp [Expr.Formed, Expr.level])
  · rename_i isKind
    apply Accounts.advance_bind (.self _) shape isKind rfl
    intro _
    apply (arguments_accounts sound).bind
    intro args _ _
    apply Accounts.pure
    rintro ⟨formed, rfl, stored⟩
    simp_all [Expr.Formed, Expr.level, Expr.listFormed_iff]
  · exact advance_yields shape ‹_› rfl fun _ => choice_accounts sound ‹_›
  · exact advance_yields shape ‹_› rfl fun _ => array_accounts sound ‹_›
  · exact advance_yields shape ‹_› rfl fun _ => parenthesized_accounts sound ‹_›
  · apply (block_accounts sound .block).bind
    intro inner _ _
    apply Accounts.pure
    rintro ⟨moved, formed, rfl, stored⟩
    simp_all [Expr.Formed, Expr.level]
  · exact advance_yields shape ‹_› rfl fun _ => interpolation_accounts sound ‹_›
  · exact .abandon

theorem accessRound_accounts (base : Expr) :
    Accounts clean bound (accessRound rules base) cursor fun round held => round.Holds
      (fun next => held ≠ [] ∧ (Facet.expr clean 8).Extends base (Facet.expr clean 8) next held)
      (fun result => (Facet.expr clean 8).Extends base (Facet.expr clean 8) result held) := by
  have tight (low : 8 ≤ base.level) : base.level = 8 := Nat.le_antisymm base.level_le low
  unfold accessRound
  apply Accounts.acceptStored_bind (by decide) (by decide)
  · intro opening start _ openingNotKept
    apply (sound.expression start).bind
    intro pos _ _
    apply Accounts.consumeStored_bind (by decide) (by decide)
    intro closing _ closingNotKept
    apply Accounts.pure
    rintro ⟨-, formed, rfl, stored⟩
    refine ⟨by simp, fun baseFormed => ?_⟩
    simp_all [Expr.Formed, Expr.level]
  apply Accounts.acceptMark_bind (by decide) (by decide)
  · intro mark _
    apply Accounts.consume_bind (by decide)
    intro name _ isName
    by_cases isCommand : name.kind = .command
    · simp only [isCommand, ↓reduceIte]
      apply (arguments_accounts sound).bind
      intro args _ _
      apply Accounts.pure
      rintro ⟨formed, rfl, stored⟩
      refine ⟨by simp, fun ⟨⟨baseFormed, low⟩, _, baseStored⟩ => ?_⟩
      have group := asGroup_formed baseFormed (tight low)
      simp_all [Expr.Formed, Expr.level, Expr.listFormed_iff]
    · simp only [isCommand, ↓reduceIte]
      apply Accounts.pure
      refine ⟨by simp, fun ⟨⟨baseFormed, low⟩, _, baseStored⟩ => ?_⟩
      have group := asGroup_formed baseFormed (tight low)
      simp_all [Expr.Formed, Expr.level]
  · exact .pure fun formed => by simp_all

theorem access_accounts :
    Accounts clean (bound + 1) (access rules) cursor (Facet.expr clean 8).Yields := by
  unfold access
  apply (primary_accounts sound).bind_deeper fun _ _ yields => yields.1
  intro base held _
  refine (rounds_renders (Facet.expr clean 8) (Facet.expr clean 8) sound.rounds
    (fun yields : (Facet.expr clean 8).Yields base held => yields.2)
    fun base _ => accessRound_accounts sound base).mono ?_
  exact fun _ _ renders yields => ⟨by simp [yields.1], renders yields⟩

theorem unary_accounts :
    Accounts clean (bound + 1) (unary rules) cursor (Facet.expr clean 7).Yields := by
  unfold unary
  apply Accounts.accept_within (by decide) (fun token _ => .self token) (Nat.le_refl _)
  · intro op start _ _
    apply (sound.unary start).bind
    intro operand _ _
    apply Accounts.pure
    rintro ⟨-, formed, rfl, stored⟩
    simp_all [Expr.Formed, Expr.level]
  · apply (access_accounts sound).mono
    rintro expr _ ⟨moved, ⟨formed, low⟩, renders⟩
    exact ⟨moved, ⟨formed, Nat.le_of_succ_le low⟩, renders⟩

/-- The operands of a layer and what it makes of them bind at least as tight as its operators. -/
theorem binary_accounts {low : Nat} {layers : List (List Kind)} (ascending : Ascending low layers)
    (plain : ∀ operators ∈ layers, ∀ kind ∈ operators, kind.isPlain = true) :
    Accounts clean (bound + 1) (binary rules layers) cursor (Facet.expr clean low).Yields := by
  induction layers generalizing low cursor with
  | nil =>
    cases ascending
    exact unary_accounts sound
  | cons operators tighter ih =>
    obtain ⟨positive, sameLevel, above⟩ := ascending
    obtain ⟨plainHere, plainInside⟩ := List.forall_mem_cons.mp plain
    unfold binary
    apply (ih above plainInside).bind_deeper fun _ _ yields => yields.1
    intro first _ _
    refine (rounds_renders (Facet.expr clean low) (Facet.expr clean low) sound.rounds
      (fun ⟨_, ⟨formed, tighter⟩, renders⟩ =>
        ⟨⟨formed, Nat.le_of_succ_le tighter⟩, renders⟩) ?_).mono
      fun _ _ renders yields => ⟨by simp [yields.1], renders yields⟩
    intro left _
    apply Accounts.accept_within plainHere (fun token _ => .self token) (Nat.le_succ _)
    · intro op _ _ isOperator
      have isLevel : op.kind.level = low := (sameLevel _).mp isOperator
      apply (ih above plainInside).le.bind
      intro right _ _
      apply Accounts.pure
      rintro ⟨-, ⟨formed, (rightTighter : low < right.level)⟩, rfl, stored⟩
      refine ⟨by simp, fun leftFormed => ?_⟩
      simp_all [Expr.Formed, Expr.level]
    · exact .pure fun formed => by simp_all

theorem operand_accounts :
    Accounts clean (bound + 1) (operand rules) cursor (Facet.expr clean 0).Yields := by
  apply (binary_accounts sound layers_ascending (by decide)).mono
  rintro expr _ ⟨moved, ⟨formed, -⟩, renders⟩
  exact ⟨moved, ⟨formed, Nat.zero_le _⟩, renders⟩

theorem assignTo_accounts (value : Expr) :
    Accounts clean (bound + 1) (assignTo rules value) cursor
      ((Facet.expr clean 0).Extends value (Facet.expr clean 0)) := by
  unfold assignTo
  apply Accounts.acceptStored_bind (by decide) (by decide)
  · intro keyword _ _ keywordNotKept
    apply Accounts.consume_bind (by decide)
    intro name _ _
    exact .pure fun formed => by simp_all [Expr.Formed, Expr.IsTarget]
  apply Accounts.look_bind (Looks.check _)
  intro isCommand
  split
  · exact .peek_abandon_bind
  apply Accounts.look_bind (Looks.check _)
  intro isName
  split
  · exact .peek_abandon_bind
  apply (access_accounts sound).bind
  intro target _ _
  split
  any_goals exact .abandon
  all_goals
    apply Accounts.pure
    rintro ⟨-, formed, rfl, stored⟩ valueFormed
    simp_all [Expr.Formed, Expr.IsTarget]

/-- An arrow is held by the block of a `break` only. -/
theorem expression_accounts :
    Accounts clean (bound + 1) (expression rules) cursor (Facet.expr clean 0).Yields := by
  unfold expression
  apply (operand_accounts sound).bind
  intro value held _
  apply Accounts.acceptEither_bind (by decide) (by decide)
  · intro arrow _ isArrow
    replace isArrow : arrow.kind = .arrow := by simpa using isArrow
    have arrowNotKept : arrow.kept = [] := kept_mark isArrow rfl
    apply Accounts.acceptStored_bind (by decide) (by decide)
    · intro keyword _ _ keywordNotKept
      apply Accounts.pure
      right
      rintro ⟨-, formed, rfl, stored⟩
      have ordered := Block.contents_break value keyword isArrow
      simp_all [Expr.Formed, Block.Formed, Stmt.ListFormed, Stmt.Formed]
    apply Accounts.mono _ fun _ _ => Or.inl
    apply Accounts.acceptMark_bind (by decide) (by decide)
    · intro opening _
      apply Accounts.consume_bind (by decide)
      intro name _ _
      apply Accounts.consumeStored_bind (by decide) (by decide)
      intro closing _ closingNotKept
      apply Accounts.pure
      rintro ⟨-, formed, rfl, stored⟩
      simp_all [Expr.Formed]
    · apply (assignTo_accounts sound value).mono
      rintro expr _ extended ⟨moved, formed, rfl, stored⟩
      exact ⟨by simp_all, extended ⟨formed, rfl, stored⟩⟩
  · apply Accounts.pure
    rintro ⟨moved, formed, rfl, stored⟩
    simp_all

theorem expressionStatement_accounts :
    Accounts clean (bound + 1) (expressionStatement rules) cursor
      (Facet.stmt clean .top).Yields := by
  unfold expressionStatement
  apply (expression_accounts sound).bind
  intro value held after
  have ending : ∀ cursor,
      Accounts clean (bound + 1) (endStatement >>= fun _ => pure (Stmt.expression value)) cursor
        fun stmt heldLater => (Facet.expr clean 0).Yields value held →
            (Facet.stmt clean .top).Yields stmt (held ++ heldLater) := by
    intro cursor
    apply endStatement_accounts.bind
    intro _ _ _
    apply Accounts.pure
    rintro rfl ⟨moved, formed, rfl, stored⟩
    simp_all [Stmt.FitsIn, Stmt.Formed]
  split
  · apply Accounts.report.bind
    rintro _ _ after
    apply (ending after).mono
    rintro _ _ ends ⟨rfl, -⟩
    exact ends
  · exact ending after

theorem arm_accounts : Accounts clean bound (arm rules) cursor (Facet.arm clean).Yields :=
  arm_renders sound fun _ => (expression_accounts sound).le

theorem conditional_accounts (isKeyword : keyword.kind = .kwIf) :
    Accounts clean bound (conditional rules keyword) cursor fun stmt held =>
      (Facet.stmt clean .top).Renders stmt (keyword :: held) := by
  have keywordNotKept : keyword.kept = [] := kept_mark isKeyword rfl
  unfold conditional
  apply (arm_accounts sound).bind
  intro first held _
  have start (yields : (Facet.arm clean).Yields first held) :
      (Facet.branches clean keyword).Renders [first] (keyword :: held) := by
    simp_all
  apply rounds_renders (Facet.branches clean keyword) (Facet.stmt clean .top) sound.rounds start
  intro branches _
  apply Accounts.acceptMark_bind (by decide) (by decide)
  · intro _ _
    apply Accounts.acceptMark_bind (by decide) (by decide)
    · intro _ _
      apply (arm_accounts sound).bind
      intro branch _ _
      apply Accounts.pure
      rintro ⟨moved, formed, rfl, stored⟩
      refine ⟨by simp_all, fun others => ?_⟩
      simp_all [or_imp]
    · apply (body_accounts sound).bind
      intro otherwise _ _
      apply Accounts.pure
      rintro ⟨formed, rfl, stored⟩ others
      simp_all [Stmt.FitsIn, Stmt.Formed, Arm.listFormed_iff, Block.OptionFormed]
  · apply Accounts.pure
    intro others
    simp_all [Stmt.FitsIn, Stmt.Formed, Arm.listFormed_iff, Block.OptionFormed]

theorem each_accounts (isKeyword : keyword.kind = .kwEach) :
    Accounts clean bound (each rules keyword) cursor fun stmt held =>
      (Facet.stmt clean .top).Renders stmt (keyword :: held) := by
  have keywordNotKept : keyword.kept = [] := kept_mark isKeyword rfl
  unfold each
  apply Accounts.consume_bind (by decide)
  intro item _ _
  apply Accounts.consumeMark_bind (by decide) (by decide)
  intro colon _
  apply (expression_accounts sound).le.bind
  intro collection _ _
  apply (body_accounts sound).bind
  intro eachBody _ _
  apply Accounts.pure
  rintro ⟨bodyFormed, rfl, bodyStored⟩ ⟨-, formed, rfl, stored⟩
  simp_all [Stmt.FitsIn, Stmt.Formed]

theorem function_accounts (isKeyword : keyword.kind = .kwFn) :
    Accounts clean bound (function rules keyword) cursor fun stmt held =>
      (Facet.stmt clean .top).Renders stmt (keyword :: held) := by
  have keywordNotKept : keyword.kept = [] := kept_mark isKeyword rfl
  unfold function
  apply Accounts.consume_bind (by decide)
  intro name _ _
  apply (parameters_accounts sound).bind
  intro names _ _
  apply (body_accounts sound).bind
  intro functionBody _ _
  apply Accounts.pure
  rintro ⟨bodyFormed, rfl, bodyStored⟩ ⟨-, rfl, stored⟩
  simp_all [Stmt.FitsIn, Stmt.Formed]

theorem group_accounts (isKeyword : keyword.kind = .kwGroup) :
    Accounts clean bound (group rules keyword) cursor fun stmt held =>
      (Facet.stmt clean .top).Renders stmt (keyword :: held) := by
  have keywordNotKept : keyword.kept = [] := kept_mark isKeyword rfl
  unfold group
  apply Accounts.consume_bind (by decide)
  intro name _ _
  apply (Accounts.acceptMark (by decide) (by decide)).bind
  intro _ _ _
  apply (block_accounts sound .group).le.bind
  intro groupBody _ _
  apply Accounts.pure
  rintro ⟨-, formed, rfl, stored⟩ rfl
  simp_all [Stmt.FitsIn, Stmt.Formed]

theorem statement_accounts :
    Accounts clean (bound + 1) (statement rules) cursor (Facet.stmt clean .top).Yields := by
  unfold statement
  apply Accounts.peek_bind
  intro token rest shape
  split
  · rename_i isKind
    have keywordNotKept : token.kept = [] := kept_mark isKind rfl
    refine advance_yields shape isKind rfl fun _ => ?_
    apply Accounts.consume_bind (by decide)
    intro name _ _
    apply endStatement_accounts.bind
    intro _ _ _
    apply Accounts.pure
    rintro rfl
    simp_all [Stmt.FitsIn, Stmt.Formed, Expr.Formed]
  · exact advance_yields shape ‹_› rfl fun _ => conditional_accounts sound ‹_›
  · rename_i isKind
    have keywordNotKept : token.kept = [] := kept_mark isKind rfl
    refine advance_yields shape isKind rfl fun _ => ?_
    apply (expression_accounts sound).le.bind
    intro condition _ _
    apply (body_accounts sound).bind
    intro loopBody _ _
    apply Accounts.pure
    rintro ⟨bodyFormed, rfl, bodyStored⟩ ⟨-, formed, rfl, stored⟩
    simp_all [Stmt.FitsIn, Stmt.Formed]
  · exact advance_yields shape ‹_› rfl fun _ => each_accounts sound ‹_›
  · rename_i isKind
    refine advance_yields shape isKind rfl fun _ => ?_
    apply endStatement_accounts.bind
    intro _ _ _
    apply Accounts.pure
    rintro rfl
    simp_all [Stmt.FitsIn, Stmt.Formed]
  · exact advance_yields shape ‹_› rfl fun _ => function_accounts sound ‹_›
  · rename_i isKind
    have keywordNotKept : token.kept = [] := kept_mark isKind rfl
    refine advance_yields shape isKind rfl fun _ => ?_
    apply Accounts.consume_bind (by decide)
    intro path _ _
    apply endStatement_accounts.bind
    intro _ _ _
    apply Accounts.pure
    rintro rfl
    simp_all [Stmt.FitsIn, Stmt.Formed]
  · exact advance_yields shape ‹_› rfl fun _ => group_accounts sound ‹_›
  · exact expressionStatement_accounts sound

theorem declaration_accounts :
    Accounts clean (bound + 1) (declaration rules setting) cursor
      (Facet.stmt clean setting).Yields := by
  unfold declaration
  apply Accounts.acceptStored_bind (by decide) (by decide)
  · intro keyword _ _ keywordNotKept
    dsimp only
    split
    · exact .abandon_bind
    apply (statement_accounts sound).bind
    intro inner _ _
    split
    · apply Accounts.report.bind
      intro _ _ _
      apply Accounts.pure
      rintro ⟨rfl, hasError⟩ ⟨-, formed, rfl, stored⟩
      simp_all [Stmt.FitsIn, Stmt.Formed]
    · apply Accounts.pure
      rintro ⟨-, formed, rfl, stored⟩
      simp_all [Stmt.FitsIn, Stmt.Formed, Stmt.IsMember]
  · apply (statement_accounts sound).bind
    intro inner _ _
    split
    · apply Accounts.report.bind
      intro _ _ _
      apply Accounts.pure
      rintro ⟨rfl, hasError⟩ ⟨moved, formed, rfl, stored⟩
      simp_all [Stmt.FitsIn]
    · rename_i allowed
      apply Accounts.pure
      rintro ⟨moved, formed, rfl, stored⟩
      have isMember : setting = .group → inner.IsMember := by
        intro isGroup
        apply isMember_of_declares_or_imports
        cases declares : inner.declares with
        | true => rfl
        | false => simpa [isGroup, declares] using allowed
      simp_all [Stmt.FitsIn]

end

/-- The productions of every depth account for the tokens they read. -/
theorem productions_forming (clean : Prop) (depth : Nat) :
    Accountable clean (Grammar.productions depth) (depth - 1) := by
  induction depth with
  | zero =>
    exact
      { rounds := Nat.le_refl 0
        declaration := fun _ _ => .exhausted
        expression := fun _ => .exhausted
        operand := fun _ => .exhausted
        unary := fun _ => .exhausted }
  | succ depth ih =>
    have enough : depth ≤ depth - 1 + 1 := by omega
    exact
      { rounds := Nat.le_refl depth
        declaration := fun setting _ =>
          Lands.le (declaration_accounts ih setting) enough
        expression := fun _ => Lands.le (expression_accounts ih) enough
        operand := fun _ => Lands.le (operand_accounts ih) enough
        unary := fun _ => Lands.le (unary_accounts ih) enough }

end Grammar

end ArrowScript

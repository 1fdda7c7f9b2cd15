import ArrowScript.Proofs.Grammar.Ledger
import ArrowScript.Proofs.Grammar.Seam

namespace ArrowScript

/-!
# Productions do not look behind their line

Every production that can be entered in a plain line is alike at any two places
of the line.  What may go on behind a line end does not start in a plain line,
and the one production that reads a line end, the end of a statement, reads
nothing behind it.
-/

namespace Grammar

open ArrowScript.Parser
open ArrowScript.Seam

variable {seam : Seam} {rules rules' : Productions}

/-- Productions that are alike wherever they are entered in the line. -/
structure NestedAbreast (seam : Seam) (rules rules' : Productions) : Prop where
  expression : seam.Abreast rules.expression rules'.expression
  operand : seam.Abreast rules.operand rules'.operand
  unary : seam.Abreast rules.unary rules'.unary

/-- Whether a comma starts an item is seen in the line: only a key is looked behind. -/
theorem commaStartsItem_runs {token : Token} (notEnd : token.kind ≠ .lineEnd) :
    seam.Runs (seam.Faces token) commaStartsItem commaStartsItem (seam.Faces token) := by
  intro here there faces
  obtain ⟨second, looks, further⟩ := faces.next notEnd
  apply Runs.look_bind looks
  split
  · exact .ok faces
  split
  · rename_i isKey
    obtain ⟨third, looksThird⟩ := further fun isEnd => by simp [isEnd, keyKinds] at isKey
    exact Runs.look_bind looksThird (.ok faces)
  · exact .ok faces

/-- Whether an object literal starts is seen in the line: a key is not the end of the line. -/
theorem startsObject_abreast : seam.Abreast startsObject startsObject := by
  apply Runs.check_bind
  · exact fun _ _ _ => (Runs.pure _).faces
  apply Runs.check_bind
  · intro token isKey _ here there faces
    obtain ⟨second, looks, -⟩ := faces.next fun isEnd => by simp [isEnd, keyKinds] at isKey
    exact Runs.look_bind looks (.ok faces.inside)
  · exact .pure _

section

variable (nested : NestedAbreast seam rules rules')

include nested

theorem arguments_abreast : seam.Abreast (arguments rules) (arguments rules') := by
  apply (Runs.accept (by decide)).bind
  rintro (_ | _)
  rotate_left
  · exact .pure _
  apply Runs.check.bind
  rintro (_ | _)
  rotate_left
  · exact .pure _
  apply nested.operand.bind
  intro first
  apply Runs.rounds
  intro arguments
  apply Runs.check_bind
  · intro comma isComma _
    have notEnd : comma.kind ≠ .lineEnd := by simp_all
    apply (commaStartsItem_runs notEnd).bind
    rintro (_ | _)
    · exact (Runs.advance notEnd).bind fun _ => nested.operand.map _
    · exact (Runs.pure _).faces
  · exact (Runs.accept (by decide)).map _

theorem arrayItems_abreast : seam.Abreast (arrayItems rules) (arrayItems rules') := by
  apply Runs.rounds
  intro items
  apply (Runs.accept (by decide)).bind
  intro mark
  apply nested.expression.bind
  intro value
  apply (Runs.accept (by decide)).bind
  rintro (_ | _) <;> exact .pure _

theorem array_abreast (opening : Token) :
    seam.Abreast (array rules opening) (array rules' opening) := by
  apply Runs.check.bind
  rintro (_ | _)
  · apply (arrayItems_abreast nested).bind
    exact fun items => (Runs.consume (by decide)).map _
  · exact (Runs.consume (by decide)).map _

theorem objectItem_abreast : seam.Abreast (objectItem rules) (objectItem rules') := by
  apply (Runs.accept (by decide)).bind
  rintro (_ | _)
  · apply (Runs.consume (by decide)).bind
    intro key
    apply (Runs.consume (by decide)).bind
    exact fun _ => nested.operand.map _
  · exact nested.operand.map _

theorem objectItems_abreast : seam.Abreast (objectItems rules) (objectItems rules') := by
  apply Runs.rounds
  intro items
  apply (objectItem_abreast nested).bind
  intro item
  apply (Runs.accept (by decide)).bind
  rintro (_ | _) <;> exact .pure _

theorem parenthesized_abreast (opening : Token) :
    seam.Abreast (parenthesized rules opening) (parenthesized rules' opening) := by
  apply startsObject_abreast.bind
  rintro (_ | _)
  · apply nested.operand.bind
    exact fun inner => (Runs.consume (by decide)).map _
  apply Runs.check.bind
  rintro (_ | _)
  · apply (objectItems_abreast nested).bind
    exact fun items => (Runs.consume (by decide)).map _
  · exact (Runs.consume (by decide)).map _

theorem interpolation_abreast (opening : Token) :
    seam.Abreast (interpolation rules opening) (interpolation rules' opening) := by
  apply (Runs.consume (by decide)).bind
  intro first
  have parts : seam.Abreast (interpolationParts rules first)
      (interpolationParts rules' first) := by
    apply Runs.rounds
    intro parts
    apply Runs.check.bind
    rintro (_ | _)
    · apply nested.expression.bind
      intro embedded
      exact (Runs.consume (by decide)).map _
    · exact .pure _
  apply (parts.also fun _ _ _ => interpolationParts_stop).bind
  rintro parts here there ⟨inside, token, rest, shape, isTextEnd⟩
  obtain ⟨_, faces⟩ := inside.faces
  obtain ⟨⟨_, same⟩, -⟩ := faces.rest
  cases shape.symm.trans same
  exact (Runs.advance (by simp [isTextEnd])).map _ here there faces

/-- Blocks and matches, which may go on behind a line end, do not start in a plain line. -/
theorem primary_abreast : seam.Abreast (primary rules) (primary rules') := by
  apply Runs.peek_bind
  intro token keeps
  have behind : ∀ {α : Type} {kind : Kind} {next next' : Token → Parser α},
      token.kind = kind → kind ≠ .lineEnd →
        (∀ token, seam.Abreast (next token) (next' token)) →
      seam.Runs (seam.Faces token) (advance >>= next) (advance >>= next') seam.Inside :=
    fun isKind notEnd abreast => (Runs.advance (isKind ▸ notEnd)).bind abreast
  split
  case h_6 isName => exact behind isName (by decide) fun _ => .pure _
  case h_7 isAt => exact behind isAt (by decide) fun _ => .pure _
  case h_8 isCommand => exact behind isCommand (by decide) fun _ => (arguments_abreast nested).map _
  case h_9 isMatch => simp [isMatch, spanningKinds] at keeps
  case h_10 isBracket => exact behind isBracket (by decide) (array_abreast nested)
  case h_11 isParen => exact behind isParen (by decide) (parenthesized_abreast nested)
  case h_12 isBrace => simp [isBrace, spanningKinds] at keeps
  case h_13 isText => exact behind isText (by decide) (interpolation_abreast nested)
  case h_14 => exact Runs.abandon.faces
  -- What remains are the five kinds of constants.
  all_goals exact behind ‹_› (by decide) fun _ => .pure _

theorem accessRound_abreast (base : Expr) :
    seam.Abreast (accessRound rules base) (accessRound rules' base) := by
  apply (Runs.accept (by decide)).bind
  rintro (_ | _)
  · apply (Runs.accept (by decide)).bind
    rintro (_ | _)
    · exact .pure _
    apply (Runs.consume (by decide)).bind
    intro name
    simp only
    split
    · exact (arguments_abreast nested).map _
    · exact .pure _
  · apply nested.expression.bind
    exact fun position => (Runs.consume (by decide)).map _

theorem access_abreast : seam.Abreast (access rules) (access rules') :=
  (primary_abreast nested).bind fun base => .rounds (accessRound_abreast nested) _ _ base

theorem unary_abreast : seam.Abreast (unary rules) (unary rules') := by
  apply (Runs.accept (by decide)).bind
  rintro (_ | _)
  · exact access_abreast nested
  · exact nested.unary.map _

theorem binary_abreast {layers : List (List Kind)}
    (inLine : ∀ layer ∈ layers, Kind.lineEnd ∉ layer) :
    seam.Abreast (binary rules layers) (binary rules' layers) := by
  induction layers with
  | nil => exact unary_abreast nested
  | cons layer tighter ih =>
    obtain ⟨notEnd, others⟩ := List.forall_mem_cons.mp inLine
    have tighterAbreast := ih others
    apply tighterAbreast.bind
    intro first
    apply Runs.rounds
    intro left
    apply (Runs.accept notEnd).bind
    rintro (_ | _)
    · exact .pure _
    · exact tighterAbreast.map _

theorem operand_abreast : seam.Abreast (operand rules) (operand rules') :=
  binary_abreast nested (by decide)

theorem assignTo_abreast (value : Expr) :
    seam.Abreast (assignTo rules value) (assignTo rules' value) := by
  apply (Runs.accept (by decide)).bind
  rintro (_ | _)
  rotate_left
  · exact (Runs.consume (by decide)).map _
  apply Runs.check.bind
  rintro (_ | _)
  rotate_left
  · exact Runs.peek_bind fun _ _ => Runs.abandon_bind.faces
  apply Runs.check.bind
  rintro (_ | _)
  · exact Runs.peek_bind fun _ _ => Runs.abandon_bind.faces
  apply (access_abreast nested).bind
  intro target
  cases target with
  | reference | element | groupMember => exact .pure _
  | _ => exact .abandon

theorem expression_abreast : seam.Abreast (expression rules) (expression rules') := by
  apply (operand_abreast nested).bind
  intro value
  apply (Runs.accept (by decide)).bind
  rintro (_ | _)
  · exact .pure _
  apply (Runs.accept (by decide)).bind
  rintro (_ | _)
  rotate_left
  · exact .pure _
  apply (Runs.accept (by decide)).bind
  rintro (_ | _)
  · exact assignTo_abreast nested value
  apply (Runs.consume (by decide)).bind
  exact fun name => (Runs.consume (by decide)).map _

end

/-- Productions are alike, however often either of them may be entered again. -/
theorem productions_abreast (seam : Seam) (depth depth' : Nat) :
    NestedAbreast seam (Grammar.productions depth) (Grammar.productions depth') := by
  induction depth generalizing depth' with
  | zero =>
    exact
      { expression := fun _ _ _ => .exhaustedHere
        operand := fun _ _ _ => .exhaustedHere
        unary := fun _ _ _ => .exhaustedHere }
  | succ depth ih =>
    cases depth' with
    | zero =>
      exact
        { expression := fun _ _ _ => .exhaustedThere
          operand := fun _ _ _ => .exhaustedThere
          unary := fun _ _ _ => .exhaustedThere }
    | succ depth' =>
      have nested := ih depth'
      exact
        { expression := expression_abreast nested
          operand := operand_abreast nested
          unary := unary_abreast nested }

theorem endStatement_runs : seam.Runs seam.Inside endStatement endStatement seam.Behind := by
  unfold endStatement accept?
  rw [bind_assoc]
  apply Runs.check_bind
  · intro token isEnd _
    simp only [↓reduceIte, bind_assoc, pure_bind, Option.isSome_some]
    exact (Runs.advance_ending (by simpa using isEnd)).map _
  apply Runs.check_bind
  · intro token outside keeps
    simp only [spanningKinds, List.mem_cons, not_or] at keeps outside
    grind
  · exact Runs.peek_bind fun _ _ => Runs.abandon.faces

section

variable (nested : NestedAbreast seam rules rules')

include nested

/-- Statements with bodies, which may go on behind a line end, do not start in a plain line. -/
theorem statement_runs :
    seam.Runs seam.Inside (statement rules) (statement rules') seam.Behind := by
  apply Runs.peek_bind
  intro token keeps
  split
  case h_1 isVar =>
    apply (Runs.advance (by simp [isVar])).bind
    intro keyword
    apply (Runs.consume (by decide)).bind
    exact fun _ => endStatement_runs.map _
  case h_5 isBreak => exact (Runs.advance (by simp [isBreak])).bind fun _ => endStatement_runs.map _
  case h_7 isUse =>
    apply (Runs.advance (by simp [isUse])).bind
    intro keyword
    apply (Runs.consume (by decide)).bind
    exact fun _ => endStatement_runs.map _
  case h_9 =>
    apply Runs.faces
    apply (expression_abreast nested).bind
    intro value
    simp only
    split
    · exact Runs.report.bind fun _ => endStatement_runs.map _
    · exact endStatement_runs.map _
  all_goals
    rename_i isSpanning
    simp [isSpanning, spanningKinds] at keeps

theorem declaration_runs (setting : Setting) :
    seam.Runs seam.Inside (declaration rules setting) (declaration rules' setting)
      seam.Behind := by
  apply (Runs.accept (by decide)).bind
  rintro (_ | keyword)
  · apply (statement_runs nested).bind
    intro inner
    split
    · exact Runs.report_behind.map _
    · exact .pure _
  · simp only
    split
    · exact .abandon_bind
    apply (statement_runs nested).bind
    intro inner
    split
    · exact Runs.report_behind.map _
    · exact .pure _

end

end Grammar

end ArrowScript

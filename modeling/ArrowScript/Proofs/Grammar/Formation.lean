import ArrowScript.Proofs.Grammar.Totality

namespace ArrowScript

/-!
# Productions build well-formed trees

Whatever list of tokens a production reads, and whatever errors it records on
the way, the tree it gives is well formed.
-/

open scoped List

/-- A parser only adds errors, and what it gives satisfies `post` unless a clean text has one. -/
def Parser.Builds (clean : Prop) (parser : Parser α) (post : α → Prop) : Prop :=
  ∀ cursor result after,
    parser cursor = .ok result after →
    cursor.errors <+: after.errors ∧ ((clean → after.errors = []) → post result)

theorem Parser.Builds.of_ok {clean : Prop} {parser : Parser α} {post : α → Prop}
    {cursor after : Cursor} {result : α} (builds : Builds clean parser post)
    (ended : parser cursor = .ok result after) :
    cursor.errors <+: after.errors ∧ ((clean → after.errors = []) → post result) :=
  builds cursor result after ended

theorem Grammar.operand_builds {clean : Prop} {rules : Productions} {bound : Nat}
    (sound : Accountable clean rules bound) :
    Parser.Builds clean (operand rules) (Expr.Formed clean .value) := by
  intro cursor expr after ended
  obtain ⟨read, reads, -, held, -, holds⟩ :=
    (operand_accounts sound).of_ok ended
  exact ⟨reads.errors_prefix, fun noErrors => (holds noErrors).2.1.1⟩

/-- A valid script text is read as well-formed statements. -/
theorem read_formed {text : String} (valid : (read text).valid = true) :
    ∀ stmt ∈ (read text).statements, stmt.Formed True := by
  have noErrors : (parse (lex text).tokens).errors = [] := by
    simpa [Checked.valid, read] using (Bool.and_eq_true_iff.mp valid).2
  show ∀ stmt ∈ (parse (lex text).tokens).statements, stmt.Formed True
  generalize (lex text).tokens = tokens at noErrors
  have lands := Grammar.program_lands True tokens.length (.ofTokens tokens)
  unfold parse at noErrors ⊢
  cases ended : Grammar.program tokens.length (.ofTokens tokens) with
  | ok stmts cursor =>
    rw [ended] at noErrors
    obtain ⟨_, -, ⟨_, -, holds⟩, -⟩ := lands.of_ok ended
    exact fun stmt mem => ((holds fun _ => noErrors).1 stmt mem).1
  | error stop cursor =>
    simp

end ArrowScript

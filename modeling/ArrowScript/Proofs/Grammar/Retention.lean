import ArrowScript.Proofs.Grammar.Totality

namespace ArrowScript

/-!
# A program without errors keeps its contents

The statements of a program store the tokens that carry its meaning, each once
and in the order of the script.  The one token that may be stored twice is the
last one of a body behind `=>`, which is stored as the closing token of the body
as well.
-/

namespace Grammar

open ArrowScript.Parser

/-- Unless an error was recorded, a program records what it reads. -/
theorem program_records {cursor : Cursor} (depth : Nat) :
    Lands True depth (program depth) cursor (fun stmts read after =>
        after.errors = [] → kept (Stmt.listStored false stmts) = kept read)
      (fun _ _ => False) := by
  apply (program_lands True depth cursor).mono
  · rintro stmts read after - ⟨⟨held, share, holds⟩, -⟩ noErrors
    rw [Stmt.listStored_eq_flatMap, ← share.all noErrors]
    simpa [meaning] using (holds fun _ => noErrors).2.2
  · exact fun _ _ _ impossible => impossible

/--
The tokens stored in the statements of a program without errors, the copies in
bodies behind `=>` left out, are the tokens of the program, as far as they carry
meaning: each once, in the same order.
-/
theorem parse_keeps_content
    (tokens : List Token)
    (terminated : Terminated tokens)
    (noErrors : (parse tokens).errors = []) :
    kept (Stmt.listStored false (parse tokens).statements) = kept tokens := by
  obtain ⟨statements, _, cursor, ended, -, -, atEnd⟩ := program_reads terminated
  have parsed : parse tokens = ⟨statements, cursor.errors⟩ := by
    simp [parse, ended]
  rw [parsed] at noErrors ⊢
  obtain ⟨read, reads, recorded⟩ := (program_records tokens.length).of_ok ended
  obtain ⟨last, atLast, isEnd⟩ := atEnd
  have lastNotKept : last.kept = [] := kept_mark isEnd rfl
  have whole : tokens = read ++ [last] := atLast ▸ reads.rest_eq
  calc
    kept (Stmt.listStored false statements) = kept read := recorded noErrors
    _ = kept (read ++ [last]) := by simp [lastNotKept]
    _ = kept tokens := by rw [whole]

/-- The tokens of a conditional whose body stands behind `=>` and ends with a name. -/
def arrowBody : List Token :=
  [⟨.kwIf, "if", ⟨0, 1, 1⟩, .none⟩, ⟨.kwTrue, "true", ⟨3, 1, 4⟩, .none⟩,
   ⟨.fatArrow, "=>", ⟨8, 1, 9⟩, .none⟩, ⟨.kwNull, "null", ⟨11, 1, 12⟩, .none⟩,
   ⟨.arrow, "->", ⟨16, 1, 17⟩, .none⟩, ⟨.identifier, "x", ⟨19, 1, 20⟩, .none⟩,
   ⟨.endOfInput, "", ⟨20, 1, 21⟩, .none⟩]

theorem arrowBody_terminated : Terminated arrowBody :=
  ⟨arrowBody.dropLast, _, rfl, rfl, by decide⟩

theorem parse_keeps_content_of_arrowBody :
    Terminated arrowBody ∧
      (parse arrowBody).errors = [] ∧
      kept (Stmt.listStored false (parse arrowBody).statements) = kept arrowBody ∧
      (kept arrowBody).map (·.lexeme) = ["true", "null", "x"] := by
  have noErrors : (parse arrowBody).errors = [] := rfl
  have sameContent := parse_keeps_content arrowBody arrowBody_terminated noErrors
  exact ⟨arrowBody_terminated, noErrors, sameContent, rfl⟩

/-- With the copies listed the name at the end of the body stands twice. -/
theorem copies_stored_twice :
    ¬ ∀ tokens,
      Terminated tokens →
      (parse tokens).errors = [] →
      kept (Stmt.listStored true (parse tokens).statements) = kept tokens := by
  intro keeps
  have same := congrArg List.length (keeps arrowBody arrowBody_terminated rfl)
  have four : (kept (Stmt.listStored true (parse arrowBody).statements)).length = 4 := rfl
  have three : (kept arrowBody).length = 3 := rfl
  omega

end Grammar

end ArrowScript

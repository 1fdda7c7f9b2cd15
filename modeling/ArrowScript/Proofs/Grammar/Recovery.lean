import ArrowScript.Proofs.Grammar.Ledger

namespace ArrowScript

/-!
# Recovery keeps to the braces

A syntax error inside a block never makes the block, or one around it, end at
the wrong brace.  A block ends with the brace that counting finds for its
opening brace.  A match ends right behind that brace, also when it is abandoned.
An abandoned statement leaves its cursor where the braces read since its start
are balanced, or at the end of the input.
-/

open Braces

namespace Grammar

open ArrowScript.Parser

/-- The cursor stands right behind the partner of a brace, or at the end if it has none. -/
def StandsBehindPartner (rest : List Token) (after : Cursor) : Prop :=
  (∃ closing, partner? 0 rest = some (closing, after.rest)) ∨
    (partner? 0 rest = none ∧ Ended after.rest)

variable {after cursor : Cursor} {rules : Productions} {bound : Nat}

/-- Tokens behind an opening brace that are closed, or at the end of the input. -/
theorem Closes.standsBehindPartner {before : Cursor} {read : List Token}
    (terminated : Terminated before.rest) (reads : before.Reads read after)
    (closes : Closes read after) : StandsBehindPartner before.rest after := by
  have ready := reads.terminated terminated
  rw [reads.rest_eq]
  rcases closes with ⟨closing, closed⟩ | ⟨left, reaches, ended⟩
  · exact .inl ⟨closing, closed.partner?_eq⟩
  · obtain ⟨last, rest, shape, isEnd⟩ := ended
    rw [shape] at ready
    obtain rfl := ready.rest_eq_nil isEnd
    refine .inr ⟨?_, last, [], shape, isEnd⟩
    rw [shape]
    exact partner?_at_end reaches isEnd

section

variable (sound : Accountable True rules bound)

include sound

/-- A block that ends with a result ends with the partner of its opening brace. -/
theorem block_partner {setting : Setting} {body : Block}
    (ended : block rules setting cursor = .ok body after) :
    ∃ rest, cursor.rest = body.opening :: rest ∧ body.opening.kind = .braceOpen ∧
      partner? 0 rest = some (body.closing, after.rest) := by
  obtain ⟨read, reads, inside, rfl, isOpening, closed, -⟩ :=
    (block_lands sound setting).of_ok ended
  exact ⟨inside ++ after.rest, reads.rest_eq, isOpening, closed.partner?_eq⟩

theorem choice_partner {keyword : Token} {expr : Expr}
    (ended : choice rules keyword cursor = .ok expr after) :
    ∃ subject between opening rest arms otherwise closing,
      rules.expression cursor = .ok subject between ∧ between.rest = opening :: rest ∧
        opening.kind = .braceOpen ∧ expr = .choice keyword subject arms otherwise closing ∧
        partner? 0 rest = some (closing, after.rest) := by
  obtain ⟨subject, between, read, later⟩ := bind_eq_ok ended
  obtain ⟨opening, start, consumed, later⟩ := bind_eq_ok later
  obtain ⟨shape, isOpening⟩ := consume_eq_ok (by decide) consumed
  obtain ⟨⟨arms, otherwise, closing⟩, final, closed, returned⟩ := bind_eq_ok later
  cases returned
  obtain ⟨inside, reads, closedBy, -⟩ := (closing_lands sound start).of_ok closed
  refine ⟨subject, between, opening, start.rest, arms, otherwise, closing, read, shape,
    by simpa using isOpening, rfl, ?_⟩
  rw [reads.rest_eq]
  exact closedBy.partner?_eq

/-- A match that is abandoned behind its opening brace leaves the cursor behind its partner. -/
theorem choice_abandoned {keyword opening : Token} {between : Cursor} {subject : Expr}
    {rest : List Token} (terminated : Terminated cursor.rest)
    (read : rules.expression cursor = .ok subject between)
    (shape : between.rest = opening :: rest) (isOpening : opening.kind = .braceOpen)
    (ended : choice rules keyword cursor = .error .abandoned after) :
    StandsBehindPartner rest after := by
  obtain ⟨_, reads, -⟩ := Lands.of_ok (sound.expression cursor) read
  have betweenReady := reads.terminated terminated
  rw [shape] at betweenReady
  have startReady : Terminated (between.behind opening rest).rest :=
    betweenReady.tail (by simp [isOpening])
  have lands := closing_lands sound (between.behind opening rest)
  unfold choice at ended
  rw [bind_of_ok read,
    bind_of_ok (consume_of_mem shape (by simp [isOpening]) (by simp [isOpening]))] at ended
  cases closed : onAbandon (arms rules) skipToClosingBrace (between.behind opening rest) with
  | ok arms final =>
    rw [bind_of_ok closed] at ended
    cases ended
  | error stop final =>
    simp only [Bind.bind, EStateM.bind, closed] at ended
    cases ended
    obtain ⟨inside, readsOn, closes, -⟩ := lands.of_abandoned closed
    exact closes.standsBehindPartner startReady readsOn

/-- An abandoned statement has read balanced braces, or it stands at the end of the input. -/
theorem declaration_abandoned {setting : Setting}
    (ended : declaration rules setting cursor = .error .abandoned after) :
    ∃ read, cursor.Reads read after ∧ (Ended after.rest ∨ Balanced read) := by
  obtain ⟨read, reads, ⟨left, reaches, reason⟩, -⟩ :=
    Lands.of_abandoned (declaration_accounts sound setting) ended
  refine ⟨read, reads, ?_⟩
  rcases reason with rfl | atEnd
  · exact .inr (balanced_of_level? reaches)
  · exact .inl atEnd

end

/--
However many errors a list of tokens has, and wherever a production is entered:
a block and a match that end with a result end with the partner of their opening
brace; a match that is abandoned behind its opening brace stands behind the
partner of that brace, or at the end of the input if it has none; and an
abandoned statement has read balanced braces unless it stands at the end of the
input.
-/
theorem recovery_keeps_to_braces
    (cursor : Cursor)
    (terminated : Terminated cursor.rest)
    (depth : Nat) :
    (∀ setting body after,
        block (Grammar.productions depth) setting cursor = .ok body after →
        ∃ rest,
          cursor.rest = body.opening :: rest ∧
            body.opening.kind = .braceOpen ∧
            partner? 0 rest = some (body.closing, after.rest)) ∧
      (∀ keyword expr after,
        choice (Grammar.productions depth) keyword cursor = .ok expr after →
        ∃ subject between opening rest arms otherwise closing,
          (Grammar.productions depth).expression cursor = .ok subject between ∧
            between.rest = opening :: rest ∧
            opening.kind = .braceOpen ∧
            expr = .choice keyword subject arms otherwise closing ∧
            partner? 0 rest = some (closing, after.rest)) ∧
      (∀ keyword subject between opening rest after,
        (Grammar.productions depth).expression cursor = .ok subject between →
        between.rest = opening :: rest →
        opening.kind = .braceOpen →
        choice (Grammar.productions depth) keyword cursor = .error .abandoned after →
        StandsBehindPartner rest after) ∧
      ∀ setting after,
        declaration (Grammar.productions depth) setting cursor = .error .abandoned after →
        ∃ read, cursor.Reads read after ∧ (Ended after.rest ∨ Balanced read) := by
  have sound : Accountable True (Grammar.productions depth) (depth - 1) :=
    productions_forming True depth
  refine ⟨fun _ _ _ => block_partner sound, fun _ _ _ => choice_partner sound, ?_,
    fun _ _ => declaration_abandoned sound⟩
  intro keyword subject between opening rest after read shape isOpening ended
  exact choice_abandoned sound terminated read shape isOpening ended

/--
A block with an error in it, in front of a nested pair of braces, and a match
with an error in its first arm.
-/
theorem recovery_keeps_to_braces_behind_error :
    let opening : Token := ⟨.braceOpen, "\x7b", .start, .none⟩
    let closing : Token := ⟨.braceClose, "\x7d", .start, .none⟩
    let stray : Token := ⟨.parenClose, ")", .start, .none⟩
    let name : Token := ⟨.identifier, "x", .start, .none⟩
    let last : Token := ⟨.endOfInput, "", .start, .none⟩
    let inner := [stray, opening, closing, closing, last]
    (Terminated (opening :: inner) ∧
        ∃ body after,
          block (Grammar.productions 4) .block (.ofTokens (opening :: inner)) = .ok body after ∧
            after.errors.length = 1 ∧
            partner? 0 inner = some (body.closing, after.rest)) ∧
      Terminated (name :: opening :: inner) ∧
        ∃ after,
          choice (Grammar.productions 4) name (.ofTokens (name :: opening :: inner)) =
              .error .abandoned after ∧
            StandsBehindPartner inner after := by
  intro opening closing stray name last inner
  have inBlock : Terminated (opening :: inner) :=
    ⟨[opening, stray, opening, closing, closing], last, rfl, rfl, by decide⟩
  have inMatch : Terminated (name :: opening :: inner) :=
    ⟨[name, opening, stray, opening, closing, closing], last, rfl, rfl, by decide⟩
  obtain ⟨blocks, -⟩ := recovery_keeps_to_braces (.ofTokens (opening :: inner)) inBlock 4
  obtain ⟨-, -, matched, -⟩ :=
    recovery_keeps_to_braces (.ofTokens (name :: opening :: inner)) inMatch 4
  refine ⟨⟨inBlock, _, _, rfl, rfl, ?_⟩, inMatch, _, rfl, ?_⟩
  · obtain ⟨rest, shape, -, partner⟩ := blocks .block _ _ rfl
    cases shape
    exact partner
  · exact matched name _ _ _ _ _ rfl rfl rfl rfl

end Grammar

end ArrowScript

import ArrowScript.Proofs.Token.Gaps
import Mathlib.Data.List.Chain

namespace ArrowScript

/-!
# Where lines end

Whatever is wrong with a text, a line end stands behind a token that can end a
line, and no second line end, closing bracket or closing parenthesis stands
behind it.  In a text without errors there is a line end between two tokens
exactly when a line break stands between them outside of comments and strings
and neither of the tokens goes on with the line.
-/

/-- Two tokens may be neighbours: a line end goes with what can end and what can start a line. -/
def Token.Abut (first second : Token) : Prop :=
  (second.kind = .lineEnd →
      first.kind ∉ [.lineEnd, .braceOpen, .parenOpen, .bracketOpen, .comma]) ∧
    (first.kind = .lineEnd → second.kind ∉ [.lineEnd, .parenClose, .bracketClose])

namespace Layout

variable {last : Option Kind} {token : Token} {tokens rest : List Token}

theorem noBreak_of_ahead (isAhead : ahead tokens = some token) : token.kind ≠ .lineEnd := by
  induction tokens with
  | nil => cases isAhead
  | cons first tokens ih =>
    rw [ahead] at isAhead
    split at isAhead
    · exact ih isAhead
    · cases isAhead
      assumption

theorem head?_lay_lineEnd (isFirst : (lay last tokens).head? = some token)
    (isBreak : token.kind = .lineEnd) : last.all Kind.continuesLine = false := by
  cases continues : last.all Kind.continuesLine with
  | false => rfl
  | true =>
    rw [lay_of_continues continues, head?_settle] at isFirst
    exact absurd isBreak (noBreak_of_ahead isFirst)

theorem isChain_lay (last : Option Kind) (tokens : List Token) :
    (lay last tokens).IsChain Token.Abut := by
  fun_induction lay last tokens with
  | case1 => exact .nil
  | case2 _ _ _ _ ih => exact ih
  | case3 last token rest kept ih =>
    refine List.isChain_cons.mpr ⟨fun next isNext => ⟨?_, ?_⟩, ih⟩
    · intro isBreak
      have ends := head?_lay_lineEnd isNext isBreak
      rw [← continuesLine_iff]
      simpa using ends
    · intro isBreak
      rw [isBreak, lay_of_continues rfl, head?_settle] at isNext
      have noBreak := noBreak_of_ahead isNext
      have opens : next.kind.absorbsLineEnd = false := by
        cases absorbs : next.kind.absorbsLineEnd with
        | false => rfl
        | true =>
          exact absurd ⟨isBreak, by simp [omits, Option.mem_def.mp isNext, absorbs]⟩ kept
      have noBracket := (absorbsLineEnd_iff next.kind).not.mp (by simp [opens])
      exact List.not_mem_cons_of_ne_of_not_mem noBreak noBracket

end Layout

/-- What is being read: a comment of a kind, or no comment. -/
inductive Remark
  | none
  | line
  | block

/-- The characters of a text outside of its comments. -/
def uncommented : Remark → List Char → List Char
  | _, [] => []
  | .none, '#' :: '#' :: rest => uncommented .block rest
  | .none, '#' :: rest => uncommented .line rest
  | .none, char :: rest => char :: uncommented .none rest
  | .line, '\n' :: rest => '\n' :: uncommented .none rest
  | .line, _ :: rest => uncommented .line rest
  | .block, '#' :: '#' :: rest => uncommented .none rest
  | .block, _ :: rest => uncommented .block rest

theorem uncommented_block {inside : List Char} (noMarks : ¬ ['#', '#'] <:+: inside ++ ['#'])
    (rest : List Char) :
    uncommented .block (inside ++ '#' :: '#' :: rest) = uncommented .none rest := by
  induction inside with
  | nil => rfl
  | cons char inside ih =>
    rw [List.cons_append, List.infix_cons_iff, not_or] at noMarks
    rw [List.cons_append, uncommented, ih noMarks.2]
    rintro second rfl shape
    refine noMarks.1 (List.cons_prefix_cons.mpr ⟨rfl, ?_⟩)
    cases inside with
    | nil => exact List.prefix_rfl
    | cons first inside =>
      obtain rfl := (List.cons.inj shape).1
      exact List.cons_prefix_cons.mpr ⟨rfl, List.nil_prefix⟩

theorem uncommented_line {inside : List Char} (noBreak : '\n' ∉ inside) (rest : List Char) :
    uncommented .line (inside ++ rest) = uncommented .line rest := by
  induction inside with
  | nil => rfl
  | cons char inside ih =>
    obtain ⟨noFirst, noLater⟩ := not_or.mp (mt List.mem_cons.mpr noBreak)
    rw [List.cons_append, uncommented, ih noLater]
    rintro rfl
    exact noFirst rfl

/-- A blank or a comment adds a break to what is outside of comments when it is one. -/
theorem mem_uncommented_append {text rest behind : List Char}
    (blank : Filler false text (rest ++ behind)) :
    '\n' ∈ uncommented .none (text ++ rest) ↔ text = ['\n'] ∨
      '\n' ∈ uncommented .none rest := by
  cases blank with
  | @character character _ isBlank =>
    have noMark : character ≠ '#' := by
      rintro rfl
      simp at isBlank
    rw [List.singleton_append, uncommented]
    · simp [eq_comm]
    · simp [noMark]
    · simp [noMark]
  | block noMarks =>
    rw [List.append_assoc, List.append_assoc]
    simp [uncommented, uncommented_block noMarks]
  | @line inside _ noMark noEnd stops =>
    have noBreak : '\n' ∉ inside := fun mem => noEnd _ mem (by decide)
    have isLine : uncommented .none ('#' :: (inside ++ rest)) = uncommented .line rest := by
      rw [uncommented, uncommented_line noBreak]
      intro behind isPair
      cases inside with
      | cons first inside => exact noMark (congrArg List.head? isPair)
      | nil =>
        cases isPair
        exact absurd (stops '#' rfl) (by decide)
    rw [List.cons_append, isLine]
    cases rest with
    | nil => simp [uncommented]
    | cons first rest =>
      obtain rfl : first = '\n' := by simpa [commentEnds] using stops first rfl
      simp [uncommented]

namespace Woven

variable {depth : Nat} {part : Part} {between rest : List Piece} {piece : Piece} {kind : Kind}

/-- Inside of a string nothing that is skipped is a line end. -/
theorem kindsOf_between_inside (woven : Woven depth part (between ++ piece :: rest))
    (skipped : ∀ piece ∈ between, piece.KindIn (· = .lineEnd))
    (inside : depth + part.opened ≠ 0) :
    Piece.kindsOf between = [] := by
  induction between generalizing depth part with
  | nil => rfl
  | cons first between ih =>
    obtain ⟨skippedFirst, skippedRest⟩ := List.forall_mem_cons.mp skipped
    generalize shape : between ++ piece :: rest = behind at woven
    rw [List.cons_append, shape] at woven
    have later : ∀ {depth part}, Woven depth part behind → depth + part.opened ≠ 0 →
        first.kind? = none → Piece.kindsOf (first :: between) = [] := by
      intro depth part woven inside noKind
      rw [Piece.kindsOf, List.filterMap_cons, noKind]
      exact ih (shape ▸ woven) skippedRest inside
    cases woven with
    | done => simp at shape
    | token isKind allowed _ =>
      cases skippedFirst _ isKind
      cases part <;> simp [Part.Allows] at allowed
    | blank _ isKind woven =>
      refine later woven inside ?_
      rw [isKind, if_neg]
      exact fun both => inside both.1
    | enter woven => exact later woven (by omega) rfl
    | leave woven => exact later woven (by simp [Part.opened]) rfl

/-- Outside of strings a line end is skipped where a break stands outside of comments. -/
theorem kindsOf_between_outside (woven : Woven 0 .script (between ++ piece :: rest))
    (skipped : ∀ piece ∈ between, piece.KindIn (· = .lineEnd)) :
    Piece.kindsOf between ≠ [] ↔ '\n' ∈ uncommented .none (Piece.textOf between) := by
  induction between with
  | nil => simp [Piece.kindsOf, Piece.textOf, uncommented]
  | cons first between ih =>
    obtain ⟨skippedFirst, skippedRest⟩ := List.forall_mem_cons.mp skipped
    generalize shape : between ++ piece :: rest = behind at woven
    rw [List.cons_append, shape] at woven
    cases woven with
    | done => simp at shape
    | token isKind allowed _ =>
      cases skippedFirst _ isKind
      simp [Part.Allows] at allowed
    | blank isBlank isKind woven =>
      have whole : Piece.textOf behind = Piece.textOf between ++ Piece.textOf (piece :: rest) := by
        rw [← shape]
        exact List.flatMap_append
      rw [whole] at isBlank
      have here := mem_uncommented_append isBlank
      rw [← ih (shape ▸ woven) skippedRest] at here
      rw [show Piece.textOf (first :: between) = first.text ++ Piece.textOf between from rfl, here,
        Piece.kindsOf, List.filterMap_cons, isKind]
      by_cases isBreak : first.text = ['\n']
      · simp [isBreak]
      · simp [isBreak, Piece.kindsOf]

end Woven

/-- Line ends in front of another token are the front of it. -/
theorem lineEnds_unique {first second rest later : List Token} {token : Token}
    (firstBreaks : ∀ other ∈ first, other.kind = .lineEnd)
    (secondBreaks : ∀ other ∈ second, other.kind = .lineEnd) (noBreak : token.kind ≠ .lineEnd)
    (same : first ++ token :: rest = second ++ token :: later) : first = second := by
  have cut : ∀ {breaks rest : List Token}, (∀ other ∈ breaks, other.kind = .lineEnd) →
      (breaks ++ token :: rest).takeWhile (·.kind = .lineEnd) = breaks := by
    intro breaks rest areBreaks
    rw [List.takeWhile_append_of_pos (by simpa using areBreaks)]
    simp [noBreak]
  rw [← cut firstBreaks, same, cut secondBreaks]

theorem lexChars_lineEnd_iff {text : List Char} {front between back : List Token}
    {first second : Token} (faultless : ∀ piece ∈ pieces [] text, piece.faults = [])
    (shape : (lexChars text).tokens = front ++ first :: (between ++ second :: back))
    (firstToken : first.kind ≠ .lineEnd) (secondToken : second.kind ≠ .lineEnd)
    (areBreaks : ∀ token ∈ between, token.kind = .lineEnd) :
    between ≠ [] ↔ '\n' ∈ uncommented .none (gapBefore text (front ++ [first]) second) ∧
      insideString (front ++ [first]) = false ∧
      first.kind ∉ [.braceOpen, .parenOpen, .bracketOpen, .comma] ∧
      second.kind ∉ [.parenClose, .bracketClose] := by
  rw [List.append_cons] at shape
  obtain ⟨ahead, skipped, piece, rest, place, behind, parted, laid⟩ :=
    exists_parted shape areBreaks
  obtain ⟨depth, woven, inside⟩ := parted.woven faultless
  have breaks : ∀ token ∈ Piece.tokensFrom place skipped, token.kind = .lineEnd :=
    (Piece.forall_tokensFrom place).mpr parted.skips
  have found : Piece.tokensFrom place skipped ≠ [] ↔
      '\n' ∈ uncommented .none (gapBefore text (front ++ [first]) second) ∧
        insideString (front ++ [first]) = false := by
    have same : Piece.tokensFrom place skipped ≠ [] ↔ Piece.kindsOf skipped ≠ [] := by
      rw [← Piece.kinds_located place, Ne, Ne, List.map_eq_nil_iff]
      rfl
    rw [same, parted.gapBefore_eq.1, ← inside, bne_eq_false_iff_eq]
    generalize ((front ++ [first]).getLast?.map Token.kind).elim Part.script .after =
      part at woven ⊢
    by_cases outside : depth + part.opened = 0
    · obtain ⟨rfl, isScript⟩ := Nat.add_eq_zero_iff.mp outside
      cases part <;> cases isScript
      rw [woven.kindsOf_between_outside parted.skips, and_iff_left outside]
    · have none := woven.kindsOf_between_inside parted.skips outside
      exact iff_of_false (not_not_intro none) fun both => outside both.2
  have omitted : Layout.omits ((front ++ [first]).getLast?.map Token.kind) (second :: behind) =
      (first.kind.continuesLine || second.kind.absorbsLineEnd) := by
    simp [Layout.omits, Layout.ahead, secondToken]
  rw [Layout.lay_lineEnds breaks secondToken, omitted] at laid
  have taken : ∀ token ∈
    (if (first.kind.continuesLine || second.kind.absorbsLineEnd) = true then []
      else (Piece.tokensFrom place skipped).take 1), token.kind = .lineEnd := by
    intro token mem
    split at mem
    · cases mem
    · exact breaks token (List.mem_of_mem_take mem)
  have isBetween := lineEnds_unique taken areBreaks secondToken laid
  have goesOn : first.kind ∉ [.braceOpen, .parenOpen, .bracketOpen, .comma] ↔
      first.kind.continuesLine = false := by
    rw [← Bool.not_eq_true, Layout.continuesLine_iff]
    simp [firstToken]
  have closes : second.kind ∉ [.parenClose, .bracketClose] ↔
      second.kind.absorbsLineEnd = false := by
    rw [← Bool.not_eq_true, Layout.absorbsLineEnd_iff]
  rw [← isBetween, ← and_assoc, ← found, goesOn, closes]
  cases first.kind.continuesLine <;> cases second.kind.absorbsLineEnd <;> simp

/--
Lines end where they should.  In every source the first token is no line end, and
a line end stands neither next to another one, nor behind an opening bracket or a
comma, nor in front of a closing parenthesis or bracket.  In a source without
errors a line end stands between two other tokens exactly when a break stands
between them outside of comments and outside of every interpolated string, and
neither of them goes on with the line.
-/
theorem lex_lineEnds (source : String) :
    (∀ token ∈ (lex source).tokens.head?, token.kind ≠ .lineEnd) ∧
      (lex source).tokens.IsChain Token.Abut ∧ ((lex source).errors = [] →
        ∀ {front between back : List Token} {first second : Token},
          (lex source).tokens = front ++ first :: (between ++ second :: back) →
          first.kind ≠ .lineEnd → second.kind ≠ .lineEnd →
          (∀ token ∈ between, token.kind = .lineEnd) → (between ≠ [] ↔
            '\n' ∈ uncommented .none (gapBefore (unified source) (front ++ [first]) second) ∧
              insideString (front ++ [first]) = false ∧
              first.kind ∉ [.braceOpen, .parenOpen, .bracketOpen, .comma] ∧
              second.kind ∉ [.parenClose, .bracketClose])) := by
  have isText : unified source = Text.unifyLineEnds source.toList :=
    (Text.unifyLineEnds_eq_replace _).symm
  have laid := lexChars_tokens_eq_lay (Text.unifyLineEnds source.toList)
  refine ⟨?_, ?_, ?_⟩
  · intro token isFirst
    rw [lex, laid, ← Layout.settle_eq_lay, Layout.head?_settle] at isFirst
    exact Layout.noBreak_of_ahead isFirst
  · rw [lex, laid]
    exact Layout.isChain_lay none _
  · intro noErrors front between back first second shape
    rw [isText]
    exact lexChars_lineEnd_iff ((lexChars_errors _).mp noErrors) shape

/-- Two breaks behind a comment, and one inside of a comment. -/
theorem lex_lineEnds_behind_comment :
    (lex "a # b\n\n## c\n## d").errors = [] ∧ (lex "a # b\n\n## c\n## d").tokens =
      [] ++ ⟨.identifier, "a", ⟨0, 1, 1⟩, .none⟩ ::
        ([⟨.lineEnd, "\n", ⟨5, 1, 6⟩, .none⟩] ++
          ⟨.identifier, "d", ⟨15, 4, 4⟩, .none⟩ ::
          [.endOfInput ⟨16, 4, 5⟩]) ∧ '\n' ∈ uncommented .none
            " # b\n\n## c\n## ".toList := by
  have noErrors : (lex "a # b\n\n## c\n## d").errors = [] := by decide +kernel
  have shape : (lex "a # b\n\n## c\n## d").tokens = [] ++
    ⟨.identifier, "a", ⟨0, 1, 1⟩, .none⟩ ::
      ([⟨.lineEnd, "\n", ⟨5, 1, 6⟩, .none⟩] ++
        ⟨.identifier, "d", ⟨15, 4, 4⟩, .none⟩ ::
        [.endOfInput ⟨16, 4, 5⟩]) := by
    decide +kernel
  have gap : gapBefore (unified "a # b\n\n## c\n## d")
    ([] ++ [⟨.identifier, "a", ⟨0, 1, 1⟩, .none⟩])
      ⟨.identifier, "d", ⟨15, 4, 4⟩, .none⟩ = " # b\n\n## c\n## ".toList := by
    decide +kernel
  have ends := (lex_lineEnds "a # b\n\n## c\n## d").2.2 noErrors shape (by decide) (by decide)
    (by decide)
  refine ⟨noErrors, shape, ?_⟩
  rw [← gap]
  exact (ends.mp (by decide)).1

end ArrowScript

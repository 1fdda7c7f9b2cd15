import ArrowScript.Token.Lexer
import Mathlib.Data.List.Basic

namespace ArrowScript.Layout

/-!
# Layout of line ends, from the front

Whether a line end stays depends on the token kept in front of it and on the
next token that is no line end.  Told that way, layout is a walk from the front
that takes nothing back, and what it keeps can be read off by induction.
-/

open scoped List

/-- The first token that is no line end. -/
def ahead : List Token → Option Token
  | [] => none
  | token :: rest => if token.kind = .lineEnd then ahead rest else some token

/-- A line end behind a token of the kind `last` and in front of `rest` ends no statement. -/
def omits (last : Option Kind) (rest : List Token) : Bool :=
  last.all Kind.continuesLine || (ahead rest).any (·.kind.absorbsLineEnd)

/-- Keep what ends a statement, behind a token of the kind `last`. -/
def lay (last : Option Kind) : List Token → List Token
  | [] => []
  | token :: rest =>
    if token.kind = .lineEnd ∧ omits last rest then lay last rest
    else token :: lay (some token.kind) rest

variable {last : Option Kind} {token : Token} {tokens rest : List Token}

theorem ahead_append (first second : List Token) :
    ahead (first ++ second) = (ahead first).or (ahead second) := by
  induction first with
  | nil => rfl
  | cons token first ih =>
    simp only [List.cons_append, ahead, ih]
    split <;> rfl

theorem lay_of_omitted (isBreak : token.kind = .lineEnd) (omitted : omits last rest) :
    lay last (token :: rest) = lay last rest :=
  if_pos ⟨isBreak, omitted⟩

theorem lay_of_kept (kept : token.kind = .lineEnd → omits last rest = false) :
    lay last (token :: rest) = token :: lay (some token.kind) rest :=
  if_neg fun both => by simp [kept both.1] at both

theorem lay_of_other (noBreak : token.kind ≠ .lineEnd) :
    lay last (token :: rest) = token :: lay (some token.kind) rest :=
  lay_of_kept fun isBreak => absurd isBreak noBreak

theorem lay_lineEnd_lineEnd {second : Token} (isBreak : token.kind = .lineEnd)
    (secondBreak : second.kind = .lineEnd) :
    lay last (token :: second :: rest) = lay last (token :: rest) := by
  have same : omits last (second :: rest) = omits last rest := by
    simp only [omits, ahead, secondBreak, if_true]
  cases omitted : omits last rest with
  | true =>
    rw [lay_of_omitted isBreak (same.trans omitted), lay_of_omitted secondBreak omitted,
      lay_of_omitted isBreak omitted]
  | false =>
    rw [lay_of_kept fun _ => same.trans omitted, lay_of_kept fun _ => omitted, isBreak,
      lay_of_omitted secondBreak rfl]

/-- Tokens added one by one behind `base` and a line end that may still be taken back. -/
theorem foldl_add_eq_lay (tokens base : List Token) (waiting : Option Token)
    (isWaiting : ∀ token ∈ waiting,
      token.kind = .lineEnd ∧ (base.head?.map Token.kind).all Kind.continuesLine = false)
    (noBreak : ∀ token ∈ base.head?, token.kind ≠ .lineEnd) :
    (tokens.foldl add (waiting.toList ++ base)).reverse =
      base.reverse ++ lay (base.head?.map Token.kind) (waiting.toList ++ tokens) := by
  induction tokens generalizing base waiting with
  | nil =>
    cases waiting with
    | none => simp [lay]
    | some waiting =>
      obtain ⟨isBreak, ends⟩ := isWaiting waiting rfl
      have kept : omits (base.head?.map Token.kind) [] = false := by simp [omits, ends, ahead]
      simp [lay, isBreak, kept]
  | cons token tokens ih =>
    rw [List.foldl_cons]
    by_cases isBreak : token.kind = .lineEnd
    · cases waiting with
      | some waiting =>
        have dropped : add (waiting :: base) token = waiting :: base := by
          simp [add, isBreak, (isWaiting waiting rfl).1, Kind.continuesLine]
        simpa [dropped, lay_lineEnd_lineEnd (isWaiting waiting rfl).1 isBreak] using
          ih base (some waiting) isWaiting noBreak
      | none =>
        cases continues : (base.head?.map Token.kind).all Kind.continuesLine with
        | true =>
          have dropped : add base token = base := by
            cases base <;> simp_all [add]
          have omitted : omits (base.head?.map Token.kind) tokens := by simp [omits, continues]
          simpa [dropped, lay_of_omitted isBreak omitted] using
            ih base none isWaiting noBreak
        | false =>
          have added : add base token = token :: base := by
            cases base <;> simp_all [add]
          simpa [added] using
            ih base (some token) (by simp [isBreak, continues]) noBreak
    · -- What stands in front of the token does not change any more.
      have later := fun front : List Token =>
        ih (token :: front) none (by simp) (by simpa using isBreak)
      cases waiting with
      | none =>
        have added : add base token = token :: base := by
          cases base <;> simp_all [add]
        simpa [added, lay_of_other isBreak] using later base
      | some waiting =>
        obtain ⟨isWaitingBreak, ends⟩ := isWaiting waiting rfl
        by_cases absorbs : token.kind.absorbsLineEnd
        · have taken : add (waiting :: base) token = token :: base := by
            simp [add, isBreak, isWaitingBreak, absorbs]
          have omitted : omits (base.head?.map Token.kind) (token :: tokens) := by
            simp [omits, ahead, isBreak, absorbs]
          simpa [taken, lay_of_omitted isWaitingBreak omitted, lay_of_other isBreak]
            using later base
        · have added : add (waiting :: base) token = token :: waiting :: base := by
            simp [add, isBreak, absorbs]
          have stays : omits (base.head?.map Token.kind) (token :: tokens) = false := by
            simp [omits, ahead, isBreak, absorbs, ends]
          simpa [added, lay_of_kept fun _ => stays, lay_of_other isBreak] using
            later (waiting :: base)

theorem settle_eq_lay (tokens : List Token) : settle tokens = lay none tokens :=
  foldl_add_eq_lay tokens [] none (by simp) (by simp)

theorem lay_sublist (last : Option Kind) (tokens : List Token) : lay last tokens <+ tokens := by
  fun_induction lay last tokens with
  | case1 => exact List.Sublist.refl _
  | case2 _ token rest _ ih => exact ih.cons token
  | case3 _ token rest _ ih => exact ih.cons_cons token

theorem settle_sublist (tokens : List Token) : settle tokens <+ tokens :=
  settle_eq_lay tokens ▸ lay_sublist none tokens

theorem settle_eq (tokens : List Token) (noBreaks : ∀ token ∈ tokens, token.kind ≠ .lineEnd) :
    settle tokens = tokens := by
  rw [settle_eq_lay]
  generalize (none : Option Kind) = last
  fun_induction lay last tokens with
  | case1 => rfl
  | case2 _ token rest omitted => exact absurd omitted.1 (noBreaks token List.mem_cons_self)
  | case3 _ token rest _ ih =>
    rw [ih fun other mem => noBreaks other (List.mem_cons_of_mem _ mem)]

theorem settle_map {change : Token → Token}
    (keepsKind : ∀ token, (change token).kind = token.kind)
    (tokens : List Token) : settle (tokens.map change) = (settle tokens).map change := by
  have same : ∀ rest : List Token, ahead (rest.map change) = (ahead rest).map change := by
    intro rest
    induction rest with
    | nil => rfl
    | cons token rest ih =>
      simp only [List.map_cons, ahead, keepsKind, ih]
      split <;> rfl
  rw [settle_eq_lay, settle_eq_lay]
  generalize (none : Option Kind) = last
  fun_induction lay last tokens with
  | case1 => rfl
  | case2 last token rest omitted ih =>
    have stillOmitted : omits last (rest.map change) := by
      simpa [omits, same, keepsKind, Option.any_map] using omitted.2
    rw [List.map_cons, lay_of_omitted ((keepsKind token).trans omitted.1) stillOmitted,
      ih]
  | case3 last token rest kept ih =>
    rw [List.map_cons, List.map_cons, lay_of_kept, keepsKind, ih]
    intro isBreak
    rw [keepsKind] at isBreak
    simpa [isBreak, omits, same, keepsKind, Option.any_map] using kept

theorem ahead_lay (last : Option Kind) (tokens : List Token) :
    ahead (lay last tokens) = ahead tokens := by
  fun_induction lay last tokens with
  | case1 => rfl
  | case2 _ token rest omitted ih => simpa [ahead, omitted.1] using ih
  | case3 _ token rest _ ih => rw [ahead, ahead, ih]

theorem settle_settle (tokens : List Token) : settle (settle tokens) = settle tokens := by
  rw [settle_eq_lay, settle_eq_lay]
  generalize (none : Option Kind) = last
  fun_induction lay last tokens with
  | case1 => rfl
  | case2 _ _ _ _ ih => exact ih
  | case3 last token rest kept ih =>
    rw [lay_of_kept, ih]
    intro isBreak
    rw [omits, ahead_lay]
    simpa [isBreak, omits] using kept

theorem head?_settle (tokens : List Token) : (settle tokens).head? = ahead tokens := by
  rw [settle_eq_lay]
  induction tokens with
  | nil => rfl
  | cons token tokens ih =>
    by_cases isBreak : token.kind = .lineEnd
    · rw [lay_of_omitted isBreak rfl, ih, ahead, if_pos isBreak]
    · simp [lay_of_other isBreak, ahead, isBreak]

/-- Behind a token that continues its line tokens are laid out as on their own. -/
theorem lay_of_continues (continues : last.all Kind.continuesLine) (tokens : List Token) :
    lay last tokens = settle tokens := by
  rw [settle_eq_lay]
  induction tokens with
  | nil => rfl
  | cons token tokens ih =>
    by_cases isBreak : token.kind = .lineEnd
    · rw [lay_of_omitted isBreak (by simp [omits, continues]), ih,
        lay_of_omitted isBreak rfl]
    · rw [lay_of_other isBreak, lay_of_other isBreak]

/-- A token that is kept stands among the tokens; in front of it only line ends were left out. -/
theorem lay_split {front back : List Token} (shape : lay last tokens = front ++ token :: back) :
    ∃ before behind, tokens = before ++ token :: behind ∧
      back = lay (some token.kind) behind ∧
      before.filter (·.kind ≠ .lineEnd) = front.filter (·.kind ≠ .lineEnd) := by
  induction tokens generalizing last front with
  | nil => simp [lay] at shape
  | cons start tokens ih =>
    by_cases omitted : start.kind = .lineEnd ∧ omits last tokens
    · rw [lay, if_pos omitted] at shape
      obtain ⟨before, behind, rfl, isBack, same⟩ := ih shape
      exact ⟨start :: before, behind, rfl, isBack, by simpa [omitted.1] using same⟩
    · rw [lay, if_neg omitted] at shape
      cases front with
      | nil =>
        cases shape
        exact ⟨[], tokens, rfl, rfl, rfl⟩
      | cons first front =>
        rw [List.cons_append, List.cons.injEq] at shape
        obtain ⟨rfl, shape⟩ := shape
        obtain ⟨before, behind, rfl, isBack, same⟩ := ih shape
        refine ⟨start :: before, behind, rfl, isBack, ?_⟩
        rw [List.filter_cons, List.filter_cons, same]

/-- Of several line ends the first one stays, or none. -/
theorem lay_lineEnds {breaks : List Token} (areBreaks : ∀ other ∈ breaks, other.kind = .lineEnd)
    (noBreak : token.kind ≠ .lineEnd) (last : Option Kind) (rest : List Token) :
    lay last (breaks ++ token :: rest) =
      (if omits last (token :: rest) then [] else breaks.take 1) ++
        token :: lay (some token.kind) rest := by
  induction breaks generalizing last with
  | nil => simp [lay_of_other noBreak]
  | cons first breaks ih =>
    obtain ⟨isBreak, areBreaks⟩ := List.forall_mem_cons.mp areBreaks
    have later := ih areBreaks
    have same : omits last (breaks ++ token :: rest) = omits last (token :: rest) := by
      rw [omits, omits, ← ahead_lay none, later,
        if_pos (show omits none (token :: rest) from rfl), List.nil_append]
      simp only [ahead, noBreak, if_false]
    cases omitted : omits last (token :: rest) with
    | true => simp [lay_of_omitted isBreak (same.trans omitted), later, omitted]
    | false =>
      have second : omits (some .lineEnd) (token :: rest) := rfl
      simp [lay_of_kept fun _ => same.trans omitted, isBreak, later, second]

/-- Behind a line break tokens are laid out on their own, unless a closing bracket comes first. -/
theorem lay_append_lineEnd {second : List Token}
    (noClosing : ∀ token, (settle second).head? = some token →
      token.kind.absorbsLineEnd = false)
    (isBreak : token.kind = .lineEnd) (last : Option Kind) (first : List Token) :
    lay last (first ++ token :: second) = lay last first ++
        (if (((lay last first).getLast?.map Token.kind).or last).all Kind.continuesLine then []
          else [token]) ++
        settle second := by
  have opens : (ahead second).any (·.kind.absorbsLineEnd) = false := by
    rw [← head?_settle]
    cases first : (settle second).head? with
    | none => rfl
    | some token => exact noClosing token first
  -- What stands behind the break does not matter in front of it.
  have same : ∀ last rest, omits last (rest ++ token :: second) = omits last rest := by
    intro last rest
    simp only [omits, ahead_append, ahead, isBreak, if_true]
    cases ahead rest with
    | none => simp [opens]
    | some token => rfl
  fun_induction lay last first with
  | case1 last =>
    cases continues : last.all Kind.continuesLine with
    | true =>
      have omitted : omits last second := by simp [omits, continues]
      simp [lay_of_omitted isBreak omitted, lay_of_continues, continues]
    | false =>
      have kept : omits last second = false := by simp [omits, continues, opens]
      have behind : lay (some .lineEnd) second = settle second := lay_of_continues rfl second
      simp [lay_of_kept fun _ => kept, isBreak, behind, continues]
  | case2 last start first omitted ih =>
    rw [List.cons_append, lay_of_omitted omitted.1 ((same _ _).trans omitted.2),
      ih]
  | case3 last start first kept ih =>
    have latest : ((start :: lay (some start.kind) first).getLast?.map Token.kind).or last =
        ((lay (some start.kind) first).getLast?.map Token.kind).or (some start.kind) := by
      cases lay (some start.kind) first with
      | nil => rfl
      | cons token tokens => simp [List.getLast?_cons]
    rw [List.cons_append, lay_of_kept, ih, latest]
    · rfl
    · intro isBreak
      simpa [isBreak, same] using kept

end ArrowScript.Layout

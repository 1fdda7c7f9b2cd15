import ArrowScript.Proofs.Token.Locality
import Mathlib.Algebra.Ring.Nat

namespace ArrowScript

/-!
# Text embedded in an interpolated string

A text without faults, comments and line breaks whose braces are balanced is cut
into the same pieces on its own and between the braces of an interpolated
string.  Nothing that it is cut into depends on the closing brace behind it: no
word, number, operator or stretch of quoted text goes on with a brace.

While the text is cut, the open embedded expressions of the text itself stand in
front of the one that holds the text, whose count is that of the open braces.
-/

/-- Braces are closed in order, when the given number of them is open before. -/
def Kind.Balanced : Nat → List Kind → Prop
  | opened, [] => opened = 0
  | opened, .braceOpen :: rest => Balanced (opened + 1) rest
  | opened, .braceClose :: rest => opened ≠ 0 ∧ Balanced (opened - 1) rest
  | opened, _ :: rest => Balanced opened rest

def Kind.braces : List Kind :=
  [.braceOpen, .braceClose]

theorem Kind.balanced_cons {opened : Nat} {kind : Kind} (noBrace : kind ∉ braces)
    (rest : List Kind) : Balanced opened (kind :: rest) ↔ Balanced opened rest := by
  rw [Balanced]
  · exact fun isOpen => noBrace (by simp [isOpen, braces])
  · exact fun isClose => noBrace (by simp [isClose, braces])

theorem Kind.balanced_append {opened : Nat} {pieces : List Piece}
    (noBraces : ∀ piece ∈ pieces, piece.KindIn (· ∉ Kind.braces)) (more : List Kind) :
    Balanced opened (pieces.filterMap Piece.kind? ++ more) ↔ Balanced opened more := by
  induction pieces with
  | nil => rfl
  | cons piece pieces ih =>
    have rest := ih fun other mem =>
      noBraces other (List.mem_cons_of_mem _ mem)
    rw [List.filterMap_cons]
    cases found : piece.kind? with
    | none => exact rest
    | some kind =>
      have noBrace := noBraces piece List.mem_cons_self kind found
      exact (balanced_cons noBrace _).trans rest

theorem spells_noBrace {start : Char} (noBrace : start ∉ ['{', '}']) :
    Spells (· ∉ Kind.braces) start where
  symbols kind found := by
    unfold Kind.ofSymbol? at found
    split at found <;> cases found <;> revert noBrace <;> decide
  lineBreak _ := by decide

namespace Step

variable {start : Char} {rest : List Char} {spans : List Nat} {opened : Nat} {more : List Kind}

/-- A stretch of interpolated text has no braces of its own. -/
theorem stretch_balanced {before : Piece} (noBrace : before.KindIn (· ∉ Kind.braces))
    (balanced : Kind.Balanced (opened + spans.sum)
      ((stretch before spans rest).pieces.filterMap Piece.kind? ++ more)) :
    Kind.Balanced (opened + (stretch before spans rest).spans.sum) more := by
  have counted := (Kind.balanced_append (stretch_kindIn (by decide) noBrace spans rest) more).mp
    balanced
  have sameSum : (stretch before spans rest).spans.sum = spans.sum := by
    unfold stretch
    simp only
    split <;> simp
  rwa [sameSum]

theorem stretch_embedded {before : Piece}
    (faultless : ∀ piece ∈ (stretch before spans rest).pieces, piece.faults = [])
    (outer : List Nat) (later : List Char) :
    stretch before (spans ++ outer) (rest ++ '}' :: later) =
      (stretch before spans rest).onto outer
        ((stretch before spans rest).rest ++ '}' :: later) := by
  have whole : (Quoted.interpolated rest).own ++ (stretch before spans rest).rest = rest := by
    rw [rest_stretch]
    exact Quoted.source_interpolated rest
  have inner := stretch_onto before spans outer (ending_of_stretch (.inl faultless))
    (.append separator_brace _ later)
  rwa [← List.append_assoc, whole] at inner

/-- A step on a text without faults is the same one inside an embedded expression. -/
theorem next_embedded (plain : start ∉ ['#', '\n'])
    (faultless : ∀ piece ∈ (next spans start rest).pieces, piece.faults = [])
    (balanced : Kind.Balanced (opened + spans.sum)
      ((next spans start rest).pieces.filterMap Piece.kind? ++ more))
    (outer : List Nat) (later : List Char) :
    ∃ left, next (spans ++ opened :: outer) start (rest ++ '}' :: later) =
        (next spans start rest).onto (left :: outer)
          ((next spans start rest).rest ++ '}' :: later) ∧
      Kind.Balanced (left + (next spans start rest).spans.sum) more := by
  induction spans, start, rest using cases_next with
  | opens depth spans rest =>
    rw [next_open] at balanced ⊢
    refine ⟨opened, next_open depth (spans ++ opened :: outer) (rest ++ '}' :: later), ?_⟩
    have counted : Kind.Balanced (opened + (depth :: spans).sum + 1) more := balanced
    simp only [List.sum_cons] at counted ⊢
    rwa [show opened + (depth + 1 + spans.sum) = opened + (depth + spans.sum) + 1 by omega]
  | closes depth spans rest =>
    rw [next_close] at balanced ⊢
    refine ⟨opened, next_close depth (spans ++ opened :: outer) (rest ++ '}' :: later), ?_⟩
    obtain ⟨_, counted⟩ := balanced
    simp only [List.sum_cons] at counted ⊢
    rwa [show opened + (depth + spans.sum) = opened + (depth + 1 + spans.sum) - 1 by omega]
  | ends spans rest =>
    refine ⟨opened, stretch_embedded faultless (opened :: outer) later, ?_⟩
    rw [List.sum_cons, Nat.zero_add] at balanced
    exact stretch_balanced Piece.kindIn_of_blank balanced
  | quote spans rest =>
    rw [next_quote] at faultless balanced ⊢
    refine ⟨opened, ?_, stretch_balanced (Piece.kindIn_of_token (by decide)) balanced⟩
    exact (next_quote ..).trans (stretch_embedded faultless (opened :: outer) later)
  | other spans start rest noBrace noQuote =>
    by_cases isOpen : start = '{'
    · subst isOpen
      obtain rfl := noBrace.resolve_left (by simp)
      rw [next_other (.inr rfl) noQuote, (Cut.next_brace _ rest).1] at balanced ⊢
      exact ⟨opened + 1, next_open opened outer (rest ++ '}' :: later), balanced⟩
    by_cases isClose : start = '}'
    · subst isClose
      obtain rfl := noBrace.resolve_left (by simp)
      rw [next_other (.inr rfl) noQuote, (Cut.next_brace _ rest).2] at balanced ⊢
      obtain ⟨isOpen, counted⟩ := balanced
      cases opened with
      | zero => exact absurd rfl isOpen
      | succ left => exact ⟨left, next_close left outer (rest ++ '}' :: later), counted⟩
    · have noBrace : start ∉ ['{', '}'] := by simp [isOpen, isClose]
      rw [next_other (.inl noBrace) noQuote] at faultless balanced ⊢
      refine ⟨opened, ?_, (Kind.balanced_append ?_ more).mp balanced⟩
      · have whole := Cut.tail_append_rest (!spans.isEmpty) start rest
        have fits := Fits.append separator_brace (Cut.next (!spans.isEmpty) start rest).rest later
        rw [← whole] at noQuote
        have inner := Cut.next_onto _ (!(spans ++ opened :: outer).isEmpty)
          (.inl (faultless _ List.mem_cons_self)) fits (fun isPlain => absurd isPlain plain)
          (fun isMark => absurd (isMark ▸ List.mem_cons_self) plain)
        have stillNoQuote := noQuote_onto fits noQuote
        rw [← List.append_assoc, whole] at inner stillNoQuote
        rw [next_other (.inl noBrace) stillNoQuote, inner]
        rfl
      · intro piece mem
        rw [List.mem_singleton.mp mem]
        exact Cut.next_kindIn (spells_noBrace noBrace) _ rest

end Step

/-- A text without faults is cut as usual between the braces of an interpolated string. -/
theorem pieces_embedded (spans : List Nat) (text : List Char) (opened : Nat)
    (plain : ∀ char ∈ text, char ∉ ['#', '\n'])
    (faultless : ∀ piece ∈ pieces spans text, piece.faults = [])
    (balanced : Kind.Balanced (opened + spans.sum) ((pieces spans text).filterMap Piece.kind?))
    (outer : List Nat) (later : List Char) :
    pieces (spans ++ opened :: outer) (text ++ '}' :: later) =
      pieces spans text ++ pieces (0 :: outer) ('}' :: later) := by
  fun_induction pieces spans text generalizing opened with
  | case1 spans =>
    cases spans with
    | nil =>
      cases (show opened = 0 from balanced)
      rfl
    | cons depth spans => cases faultless _ (List.mem_cons_self)
  | case2 spans start rest step ih =>
    rw [List.filterMap_append] at balanced
    have faultlessStep := fun piece mem => faultless piece (List.mem_append_left _ mem)
    have faultlessRest := fun piece mem => faultless piece (List.mem_append_right _ mem)
    obtain ⟨left, isStep, counted⟩ :=
      Step.next_embedded (plain start List.mem_cons_self) faultlessStep balanced outer later
    have plainRest : ∀ char ∈ step.rest, char ∉ ['#', '\n'] := by
      intro char mem
      refine plain char ?_
      rw [← Step.source_next spans start rest]
      exact List.mem_append_right _ mem
    rw [List.cons_append, pieces, isStep, List.append_assoc,
      ← ih left plainRest faultlessRest counted]
    rfl

end ArrowScript

import ArrowScript.Text.LineEnds
import ArrowScript.Text.Search

namespace ArrowScript.Text

/-!
# Replacing words, one occurrence after the other

Replacement swaps a word where it stands at the front of a text and keeps one
character where it does not.  Splitting finds the same occurrences: it gives the
parts between them, so the parts joined by a replacement are the replaced text.

Unified line ends are two replacements: first of a return with a line feed, then
of a lone return.
-/

variable {first char : Char} {word replacement text rest : List Char}

theorem replace_nil : replace (first :: word) replacement [] = [] := by
  simp [replace, replaceWord]

theorem replace_word_append : replace (first :: word) replacement (first :: word ++ rest) =
      replacement ++ replace (first :: word) replacement rest := by
  have found : behind? (first :: word) (first :: (word ++ rest)) = some rest :=
    behind?_eq_some_iff.mpr rfl
  simp only [replace, List.cons_append]
  rw [replaceWord]
  split <;> simp_all

theorem replace_cons (absent : behind? (first :: word) (char :: rest) = none) :
    replace (first :: word) replacement (char :: rest) =
      char :: replace (first :: word) replacement rest := by
  simp only [replace]
  rw [replaceWord]
  split <;> simp_all

/-- Line ends are unified by replacing returns with a line feed behind them, then lone returns. -/
theorem unifyLineEnds_eq_replace (text : List Char) :
    unifyLineEnds text = replace ['\r'] ['\n'] (replace ['\r', '\n'] ['\n'] text) := by
  fun_induction unifyLineEnds text with
  | case1 => simp only [replace_nil]
  | case2 rest ih =>
    have both : replace ['\r', '\n'] ['\n'] ('\r' :: '\n' :: rest) =
        '\n' :: replace ['\r', '\n'] ['\n'] rest :=
      replace_word_append
    rw [both, replace_cons rfl, ih]
  | case3 rest noFeed ih =>
    have lone : behind? ['\r', '\n'] ('\r' :: rest) = none := by
      apply Option.eq_none_iff_forall_ne_some.mpr
      intro behind found
      exact noFeed behind (List.cons.inj (behind?_eq_some_iff.mp found)).2
    have single : ∀ later, replace ['\r'] ['\n'] ('\r' :: later) =
        '\n' :: replace ['\r'] ['\n'] later :=
      fun later => replace_word_append
    rw [replace_cons lone, single, ih]
  | case4 char rest noPair noReturn ih =>
    have noWord : ∀ word later, behind? ('\r' :: word) (char :: later) = none := by
      intro word later
      rw [behind?, if_neg fun isReturn => noReturn isReturn.symm]
    rw [replace_cons (noWord _ _), replace_cons (noWord _ _), ih]

theorem unifyLineEnds_append {text : List Char} (noReturn : '\r' ∉ text) (rest : List Char) :
    unifyLineEnds (text ++ rest) = text ++ unifyLineEnds rest := by
  induction text with
  | nil => rfl
  | cons char text ih =>
    simp only [List.mem_cons, not_or] at noReturn
    rw [List.cons_append, unifyLineEnds, ih noReturn.2]
    · rfl
    · exact fun _ isReturn _ => noReturn.1 isReturn.symm
    · exact fun isReturn => noReturn.1 isReturn.symm

theorem unifyLineEnds_eq (text : List Char) (noReturn : '\r' ∉ text) :
    unifyLineEnds text = text := by
  simpa [unifyLineEnds] using unifyLineEnds_append noReturn []

/-- The parts between the occurrences of a word, found from left to right: it occurs no earlier. -/
inductive Parted (word : List Char) : (text : List Char) → List (List Char) → Prop
  | last {part : List Char} : ¬ word <:+: part → Parted word part [part]
  | part (part : List Char) {rest : List Char} {parts : List (List Char)} :
      (∀ front back, part ++ word = front ++ word ++ back → back = []) →
        Parted word rest parts →
      Parted word (part ++ word ++ rest) (part :: parts)

namespace Parted

variable {parts : List (List Char)}

theorem ne_nil (parted : Parted word text parts) : parts ≠ [] := by
  cases parted <;> simp

/-- A character that starts no occurrence belongs to the first part. -/
theorem extendFirst (parted : Parted word text parts) (absent : ¬ word <+: char :: text) :
    Parted word (char :: text) (Text.extendFirst char parts) := by
  cases parted with
  | last noWord =>
    refine .last fun occurs => ?_
    rcases List.infix_cons_iff.mp occurs with isFirst | isLater
    · exact absent isFirst
    · exact noWord isLater
  | @part part rest parts isFirst parted =>
    refine .part (char :: part) ?_ parted
    intro front back whole
    cases front with
    | nil =>
      have starts : word <+: char :: part ++ word := ⟨back, whole.symm⟩
      refine absurd (starts.trans ?_) absent
      simp
    | cons other front =>
      exact isFirst front back (List.cons.inj whole).2

theorem intercalate (parted : Parted word text parts) : word.intercalate parts = text := by
  induction parted with
  | last => simp
  | part _ _ parted ih => rw [List.intercalate_cons_of_ne_nil parted.ne_nil, ih]

theorem noWord (parted : Parted word text parts) (nonempty : word ≠ []) :
    ∀ part ∈ parts, ¬ word <:+: part := by
  induction parted with
  | last noWord => simpa using noWord
  | @part part _ _ isFirst _ ih =>
    refine List.forall_mem_cons.mpr ⟨?_, ih⟩
    rintro ⟨front, back, rfl⟩
    have nothing := isFirst front (back ++ word) (by simp)
    exact nonempty (List.append_eq_nil_iff.mp nothing).2

end Parted

theorem split_parted (first : Char) (word text : List Char) :
    Parted (first :: word) text (split first word text) := by
  fun_induction split first word text with
  | case1 => exact .last (by simp)
  | case2 char rest behind found ih =>
    rw [behind?_eq_some_iff.mp found]
    refine .part [] ?_ ih
    intro front back whole
    have lengths := congrArg List.length whole
    simp only [List.length_append, List.length_nil] at lengths
    exact List.length_eq_zero_iff.mp (by omega)
  | case3 char rest absent ih =>
    refine ih.extendFirst ?_
    rintro ⟨behind, starts⟩
    rw [behind?_eq_some_iff.mpr starts.symm] at absent
    cases absent

/-- Replacing finds the occurrences that splitting finds. -/
theorem replace_eq_intercalate (first : Char) (word replacement text : List Char) :
    replace (first :: word) replacement text = replacement.intercalate (split first word text) := by
  fun_induction split first word text with
  | case1 => simp [replace_nil]
  | case2 char rest behind found ih =>
    rw [behind?_eq_some_iff.mp found, replace_word_append, ih,
      List.intercalate_cons_of_ne_nil (split_parted first word behind).ne_nil, List.nil_append]
  | case3 char rest absent ih =>
    rw [replace_cons absent, ih]
    cases split first word rest with
    | nil => rfl
    | cons part parts => cases parts <;> rfl

end ArrowScript.Text

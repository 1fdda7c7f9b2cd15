import ArrowScript.Proofs.Native.Texts
import ArrowScript.Proofs.Pattern.Iteration

namespace ArrowScript

/-!
# Matches, first matches and replacements
-/

namespace Template

variable {regex : Regex} {text : List Char}

theorem ofText_marks (plain : '\\' ∉ text) :
    Mark.ofText text = (text.map fun char => ⟨false, char⟩, false) := by
  fun_induction Mark.ofText text with
  | case1 => rfl
  | case2 => simp at plain
  | case3 => simp at plain
  | case4 char rest _ _ inner ih =>
    simp only [List.mem_cons, not_or] at plain
    simp [inner, ih plain.2]

theorem parts_plain (offset : Nat) (text : List Char) :
    parts regex text.length ⟨text.map fun char => ⟨false, char⟩, offset, false⟩ =
      .ok (text.map fun char => .text [char]) := by
  induction text generalizing offset with
  | nil => rfl
  | cons char text ih =>
    have taken : Marks.take? ⟨(char :: text).map fun char => ⟨false, char⟩, offset,
        false⟩ = .ok (some (⟨false, char⟩,
          ⟨text.map fun char => ⟨false, char⟩, offset + 1, false⟩)) := by
      cases text <;> rfl
    rw [List.length_cons, parts, taken]
    show (parts regex text.length _ >>= fun later => pure (_ :: later)) = _
    rw [ih]
    rfl

theorem ofText_plain (plain : '\\' ∉ text) :
    ofText regex text = .ok (text.map fun char => .text [char]) := by
  unfold ofText Marks.ofText
  rw [ofText_marks plain]
  simp only [Marks.checkDangling, Bool.and_false, Bool.false_eq_true, ↓reduceIte]
  exact parts_plain 0 text

theorem expand_plain (found : RegexMatch) :
    expand (text.map fun char => .text [char]) found = text := by
  simp [expand, List.flatMap_map, expandPart]

theorem ofText_whole : ofText regex "\\g<0>".toList = .ok [.group 0] := by
  rfl

end Template

theorem Regex.first?_eq (regex : Regex) (subject : List Char) :
    regex.first? subject = (regex.all subject).head? := by
  unfold first? all matchesOf
  rw [matchesFrom, Place.start]
  cases regex.search? false 0 none subject <;> rfl

/--
The natives for regular expressions agree.  There is one list of matches from left
to right: each is the leftmost behind the one before, none is left behind the
last, and with what stands between them they are the string.  All matches are
that list, the first match is the first of it or empty, and replacing puts a text
in the place of each match and keeps everything else; a template of the whole
match changes nothing.
-/
theorem Native.matches_agree
    {pattern : String}
    {regex : Regex}
    (compiles : Regex.ofText pattern.toList = .ok regex)
    (text : String)
    (machine : Machine) :
    ∃ (found : List RegexMatch) (rest : List Char),
      regex.Iterates (.start text.toList) false found rest ∧
      text.toList = found.flatMap (fun each => each.skipped ++ each.text) ++ rest ∧
      (∃ ref store,
        call .matchAll [.text text, .text pattern] machine =
          .ok (.array ref) { machine with store } ∧
          store.items ref =
            (((found.map RegexMatch.text).map String.ofList).map Value.text).toArray) ∧
      call .matchFirst [.text text, .text pattern] machine =
        .ok (.text (String.ofList ((found.map RegexMatch.text).headD []))) machine ∧
      (∀ replacement : String, '\\' ∉ replacement.toList →
        call .replaceMatches [.text text, .text pattern, .text replacement] machine =
          .ok (.text (String.ofList
            (found.flatMap (fun each => each.skipped ++ replacement.toList) ++ rest))) machine) ∧
      call .replaceMatches [.text text, .text pattern, .text "\\g<0>"] machine =
        .ok (.text text) machine := by
  have iterates : regex.Iterates (.start text.toList) false
      (regex.matchesOf text.toList).1 (regex.matchesOf text.toList).2 :=
    Regex.matchesFrom_iterates (Nat.lt_succ_self _)
  have isText := iterates.rest_eq
  have isPattern (native : Native) (args : List Value)
      (isHere : argument args 1 = .text pattern) :
      patternArgument native args 1 = pure regex := by
    unfold patternArgument stringArgument
    rw [isHere, pure_bind, compiles]
  have replaced {replacement : String} {template : List TemplatePart}
      (isTemplate : Template.ofText regex replacement.toList = .ok template) :
      call .replaceMatches [.text text, .text pattern, .text replacement] machine =
        .ok (.text (String.ofList (regex.replaceAll template text.toList))) machine := by
    show runReplaceMatches _ machine = _
    rw [runReplaceMatches, isPattern _ _ rfl]
    simp only [stringArgument, argument, List.getD_cons_zero, List.getD_cons_succ, pure_bind,
      isTemplate]
    rfl
  obtain ⟨ref, store, isAll, isItems⟩ := newTexts_eq (regex.all text.toList) machine
  refine ⟨_, _, iterates, isText, ⟨ref, store, ?_, isItems⟩, ?_, ?_, ?_⟩
  · rw [← isAll]
    show (patternArgument .matchAll [.text text, .text pattern] 1 >>= fun regex =>
      newTexts (regex.all text.toList)) machine = _
    rw [isPattern _ _ rfl, pure_bind]
  · show (patternArgument .matchFirst [.text text, .text pattern] 1 >>= fun regex =>
      pure (.text (String.ofList ((regex.first? text.toList).getD []))) : Action Value) machine = _
    rw [isPattern _ _ rfl, pure_bind, regex.first?_eq, ← List.headD_eq_head?_getD]
    rfl
  · intro replacement plain
    rw [replaced (Template.ofText_plain plain), Regex.replaceAll]
    simp only [Template.expand_plain]
  · rw [replaced Template.ofText_whole, Regex.replaceAll]
    simp only [Template.expand, List.flatMap_singleton, Template.expandPart]
    rw [← isText, Place.start, String.ofList_toList]

/-- A match of the empty text in front of, behind and between others. -/
theorem Native.matches_agree_at_empty_matches :
    ∃ regex, Regex.ofText "a*".toList = .ok regex ∧
      regex.all "baac".toList = [[], ['a', 'a'], [], []] ∧
      call .replaceMatches [.text "baac", .text "a*", .text "\\g<0>"] {} =
        .ok (.text "baac") {} := by
  obtain ⟨regex, compiles⟩ : ∃ regex, Regex.ofText "a*".toList = .ok regex := ⟨_, rfl⟩
  obtain ⟨found, rest, -, -, -, -, -, unchanged⟩ := matches_agree compiles "baac" {}
  refine ⟨regex, compiles, ?_, unchanged⟩
  cases compiles
  decide +kernel

end ArrowScript

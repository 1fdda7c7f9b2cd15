import ArrowScript.Native.Call
import ArrowScript.Proofs.Text.Replacement

namespace ArrowScript.Native

/-!
# Splitting, joining and replacing strings

The natives find the same occurrences of a delimiter, from left to right and
apart from each other.  The parts between them, joined by the delimiter, are the
string again, and joined by another string they are the string with that in place
of the delimiter.
-/

theorem newTexts_eq (texts : List (List Char)) (machine : Machine) :
    ∃ ref store, newTexts texts machine = .ok (.array ref) { machine with store } ∧
      store.items ref = ((texts.map String.ofList).map Value.text).toArray := by
  refine ⟨_, _, rfl, ?_⟩
  simp [Store.items, Array.getD]

theorem ofList_intercalate (separator : String) (parts : List (List Char)) :
    String.ofList (separator.toList.intercalate parts) =
      separator.intercalate (parts.map String.ofList) := by
  rw [← String.toList_inj, String.toList_ofList, String.toList_intercalate, List.map_map]
  simp [Function.comp_def]

/--
Split, join and replace agree.  Splitting by a delimiter that is not empty gives
at least one part; no part has the delimiter in it, and the parts joined by it
are the string.  Replacing the delimiter joins the same parts by the replacement,
so replacing it by itself changes nothing.
-/
theorem split_join_replace_agree
    (text delimiter : String)
    (nonempty : delimiter ≠ "")
    (machine : Machine) :
    ∃ parts : List String, (∃ ref store,
        call .split [.text text, .text delimiter] machine =
          .ok (.array ref) { machine with store } ∧
          store.items ref = (parts.map Value.text).toArray) ∧
      parts ≠ [] ∧ delimiter.intercalate parts = text ∧
      (∀ part ∈ parts, ¬ delimiter.toList <:+: part.toList) ∧
      Text.Parted delimiter.toList text.toList (parts.map String.toList) ∧
      (∀ replacement : String,
        call .replace [.text text, .text delimiter, .text replacement] machine =
          .ok (.text (replacement.intercalate parts)) machine) ∧
      call .replace [.text text, .text delimiter, .text delimiter] machine =
        .ok (.text text) machine := by
  obtain ⟨first, word, isDelimiter⟩ :=
    List.exists_cons_of_ne_nil (mt String.toList_eq_nil_iff.mp nonempty)
  have parted := Text.split_parted first word text.toList
  have noWord := parted.noWord (List.cons_ne_nil _ _)
  have joined : delimiter.intercalate ((Text.split first word text.toList).map String.ofList) =
      text := by
    rw [← ofList_intercalate, isDelimiter, parted.intercalate, String.ofList_toList]
  have replaced : ∀ replacement : String,
      call .replace [.text text, .text delimiter, .text replacement] machine =
        .ok
          (.text (replacement.intercalate ((Text.split first word text.toList).map String.ofList)))
          machine := by
    intro replacement
    rw [← ofList_intercalate, ← Text.replace_eq_intercalate, ← isDelimiter]
    rfl
  obtain ⟨ref, store, isSplit, isItems⟩ :=
    newTexts_eq (Text.split first word text.toList) machine
  refine ⟨_, ⟨ref, store, ?_, isItems⟩, ?_, joined, ?_, ?_, replaced, ?_⟩
  · rw [← isSplit]
    show runSplit _ machine = _
    simp only [runSplit, stringArgument, argument, List.getD_cons_zero, List.getD_cons_succ,
      pure_bind, isDelimiter]
  · simpa using parted.ne_nil
  · rw [isDelimiter]
    simpa using noWord
  · rw [isDelimiter]
    simpa [Function.comp_def] using parted
  · rw [replaced, joined]

/-- A delimiter that overlaps itself. -/
theorem split_join_replace_agree_overlapping : "aa" ≠ "" ∧
      call .replace [.text "aaa", .text "aa", .text "aa"] {} = .ok (.text "aaa") {} := by
  have nonempty : "aa" ≠ "" := by decide
  obtain ⟨parts, -, -, -, -, -, -, unchanged⟩ := split_join_replace_agree "aaa" "aa" nonempty {}
  exact ⟨nonempty, unchanged⟩

end ArrowScript.Native

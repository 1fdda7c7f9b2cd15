import ArrowScript.Pattern.Matcher

namespace ArrowScript

/-!
# Matches from left to right

A match is a text that stands behind its place.  The matches of a regular
expression are each the leftmost one behind the one before, and none is left
behind the last: a match without characters is not found twice at its place, so
there are fewer than twice as many as there are places.
-/

/-- Going over a text leads from a place to another one. -/
inductive Place.Leads : Place → List Char → Place → Prop
  | here (place : Place) : Leads place [] place
  | along
      {offset : Nat}
      {before : Option Char}
      {char : Char}
      {rest text : List Char}
      {last : Place} :
      Leads ⟨offset + 1, some char, rest⟩ text last →
      Leads ⟨offset, before, char :: rest⟩ (char :: text) last

namespace Place.Leads

variable {first middle last : Place} {text more : List Char}

theorem trans (leads : first.Leads text middle) (goesOn : middle.Leads more last) :
    first.Leads (text ++ more) last := by
  induction leads with
  | here => exact goesOn
  | along _ ih => exact .along (ih goesOn)

theorem rest_eq (leads : first.Leads text last) : first.rest = text ++ last.rest := by
  induction leads with
  | here => rfl
  | along _ ih => exact congrArg _ ih

theorem textTo_eq (leads : first.Leads text last) : first.textTo last = text := by
  have isOffset : last.offset = first.offset + text.length := by
    induction leads with
    | here => rfl
    | along _ ih => exact ih.trans (Nat.add_right_comm ..)
  rw [textTo, leads.rest_eq, isOffset]
  simp

end Place.Leads

/-- What has to match behind a place does, at a place that the text leads to. -/
def Reached (place : Place) (next : Continuation) (result : Attempt) : Prop :=
  ∃ text behind, place.Leads text behind.place ∧ next behind = some result

section

variable {attempt result : Attempt} {next : Continuation}

theorem Reached.here (matched : next attempt = some result) : Reached attempt.place next result :=
  ⟨[], attempt, .here _, matched⟩

theorem Reached.trans {place : Place} {inner : Continuation} (reached : Reached place inner result)
    (goesOn : ∀ behind, inner behind = some result → Reached behind.place next result) :
    Reached place next result := by
  obtain ⟨text, middle, leads, matched⟩ := reached
  obtain ⟨more, behind, leadsOn, matched⟩ := goesOn middle matched
  exact ⟨text ++ more, behind, leads.trans leadsOn, matched⟩

theorem either_of_orElse {first : Option Attempt} {second : Unit → Option Attempt}
    (matched : first.orElse second = some result) :
    first = some result ∨ second () = some result := by
  cases first with
  | none => exact .inr matched
  | some => exact .inl matched

theorem matchCharacter_reached {isMember : Char → Bool}
    (matched : matchCharacter isMember attempt next = some result) :
    Reached attempt.place next result := by
  obtain ⟨⟨offset, before, rest⟩, groups⟩ := attempt
  unfold matchCharacter Place.next? at matched
  cases rest with
  | nil => cases matched
  | cons char rest =>
    simp only [Option.ite_none_right_eq_some] at matched
    exact ⟨[char], _, .along (.here _), matched.2⟩

theorem matchText_reached {isSame : Char → Char → Bool} {text : List Char}
    (matched : matchText isSame text attempt next = some result) :
    Reached attempt.place next result := by
  induction text generalizing attempt with
  | nil => exact .here matched
  | cons expected text ih => exact (matchCharacter_reached matched).trans fun _ => ih

theorem RepetitionRule.rounds_reached {rule : RepetitionRule}
    {inner : Attempt → Continuation → Option Attempt}
    (consumes : ∀ {attempt next}, inner attempt next = some result →
      Reached attempt.place next result) {bound done : Nat} {last : Option Nat}
    (matched : rule.rounds inner bound done last attempt next = some result) :
    Reached attempt.place next result := by
  induction bound generalizing done last attempt with
  | zero => cases matched
  | succ bound ih =>
    rw [rounds] at matched
    split at matched
    · exact (consumes matched).trans fun _ => ih
    simp only at matched
    split at matched
    · rcases either_of_orElse matched with ended | again
      · exact .here ended
      · exact (consumes (Option.ite_none_right_eq_some.mp again).2).trans fun _ => ih
    all_goals
      rcases either_of_orElse matched with again | ended
      · exact (consumes (Option.ite_none_right_eq_some.mp again).2).trans fun _ => ih
      · exact .here ended

theorem Pattern.matchAt_reached {flags : PatternFlags} {pattern : Pattern}
    (matched : pattern.matchAt flags attempt next = some result) :
    Reached attempt.place next result := by
  induction pattern generalizing attempt next result with
  | empty => exact .here matched
  | character | anything | set => exact matchCharacter_reached matched
  | anchor => exact .here (Option.ite_none_right_eq_some.mp matched).2
  | capture index inner ih =>
    obtain ⟨text, behind, leads, matched⟩ := ih matched
    exact ⟨text, ⟨behind.place, (index, _) :: behind.groups⟩, leads, matched⟩
  | sequence first second ihFirst ihSecond => exact (ihFirst matched).trans fun _ => ihSecond
  | either first second ihFirst ihSecond =>
    rcases either_of_orElse matched with inFirst | inSecond
    · exact ihFirst inFirst
    · exact ihSecond inSecond
  | repetition inner least most greed ih =>
    cases greed with
    | possessive =>
      rw [matchAt] at matched
      split at matched
      · cases matched
      · rename_i behind isBehind
        obtain ⟨text, _, leads, same⟩ := RepetitionRule.rounds_reached ih isBehind
        cases same
        exact ⟨text, behind, leads, matched⟩
    | greedy | lazy => exact RepetitionRule.rounds_reached ih matched
  | reference index =>
    rw [matchAt] at matched
    split at matched
    · cases matched
    · exact matchText_reached matched
  | lookahead negated inner =>
    unfold matchAt at matched
    split at matched
    · rename_i found _
      exact ⟨[], ⟨attempt.place, found.groups⟩, .here _, matched⟩
    · exact .here matched
    · cases matched

end

namespace Regex

variable {regex : Regex} {place : Place} {advance : Bool} {found : RegexMatch}

theorem leads_of_matchAt? (matched : regex.matchAt? place advance = some found) :
    place.Leads found.text found.behind ∧ found.skipped = [] ∧
      (advance = true → found.text ≠ []) := by
  obtain ⟨attempt, isAttempt, rfl⟩ := Option.map_eq_some_iff.mp matched
  obtain ⟨text, behind, leads, ended⟩ := Pattern.matchAt_reached isAttempt
  obtain ⟨moved, isBehind⟩ := Option.ite_none_left_eq_some.mp ended
  cases isBehind
  refine ⟨leads.textTo_eq.symm ▸ leads, rfl, ?_⟩
  rintro rfl isEmpty
  rw [leads.textTo_eq] at isEmpty
  subst isEmpty
  cases leads
  simp at moved

/-- No match starts before so many characters; `advance` is for the first place only. -/
def Misses (regex : Regex) (place : Place) (advance : Bool) (count : Nat) : Prop :=
  ∀ front middle, place.Leads front middle → front.length < count →
    regex.matchAt? middle (advance && front.isEmpty) = none

/-- A match is the first one behind a place. -/
def Finds (regex : Regex) (place : Place) (advance : Bool) (found : RegexMatch) : Prop :=
  ∃ middle, place.Leads found.skipped middle ∧
    regex.Misses place advance found.skipped.length ∧
    regex.matchAt? middle (advance && found.skipped.isEmpty) = some { found with skipped := [] }

/-- All matches behind a place, one behind the other, and the text that is left. -/
inductive Iterates (regex : Regex) : Place → Bool → List RegexMatch → List Char → Prop
  | done {place : Place} {advance : Bool} : regex.Misses place advance (place.rest.length + 1) →
      Iterates regex place advance [] place.rest
  | next
      {place : Place}
      {advance : Bool}
      {found : RegexMatch}
      {later : List RegexMatch}
      {rest : List Char} :
      regex.Finds place advance found →
      Iterates regex found.behind found.text.isEmpty later rest →
      Iterates regex place advance (found :: later) rest

theorem Misses.cons {offset count : Nat} {before : Option Char} {char : Char}
    {rest : List Char} (here : regex.matchAt? ⟨offset, before, char :: rest⟩ advance = none)
    (behind : regex.Misses ⟨offset + 1, some char, rest⟩ false count) :
    regex.Misses ⟨offset, before, char :: rest⟩ advance (count + 1) := by
  intro front middle leads short
  cases leads with
  | here => simpa using here
  | along leads => simpa using behind _ middle leads (Nat.lt_of_succ_lt_succ short)

theorem Finds.here (matched : regex.matchAt? place advance = some found) :
    regex.Finds place advance found := by
  obtain ⟨-, isFirst, -⟩ := leads_of_matchAt? matched
  obtain ⟨skipped, text, groups, behind⟩ := found
  cases isFirst
  exact ⟨place, .here _, fun _ _ _ short => absurd short (Nat.not_lt_zero _),
    by simpa using matched⟩

/-- Searching misses everywhere, or it finds the first match. -/
theorem search?_spec (advance : Bool) (offset : Nat) (before : Option Char) (rest : List Char) :
    match regex.search? advance offset before rest with
    | none => regex.Misses ⟨offset, before, rest⟩ advance (rest.length + 1)
    | some found => regex.Finds ⟨offset, before, rest⟩ advance found := by
  induction rest generalizing advance offset before with
  | nil =>
    unfold search?
    cases matched : regex.matchAt? ⟨offset, before, []⟩ advance with
    | none =>
      intro front middle leads _
      cases leads
      simpa using matched
    | some found => exact .here matched
  | cons char rest ih =>
    unfold search?
    cases matched : regex.matchAt? ⟨offset, before, char :: rest⟩ advance with
    | some found => exact .here matched
    | none =>
      have behind := ih false (offset + 1) (some char)
      simp only
      generalize regex.search? false (offset + 1) (some char) rest = searched at behind ⊢
      cases searched with
      | none => exact .cons matched behind
      | some found =>
        obtain ⟨middle, leads, misses, isMatch⟩ := behind
        exact ⟨middle, .along leads, .cons matched misses, by simpa using isMatch⟩

/-- How many matches may still be found, at most. -/
def room (place : Place) (advance : Bool) : Nat :=
  2 * place.rest.length + if advance then 0 else 1

theorem Finds.rest_eq (finds : regex.Finds place advance found) :
    place.rest = found.skipped ++ found.text ++ found.behind.rest := by
  obtain ⟨middle, leads, -, matched⟩ := finds
  rw [leads.rest_eq, (leads_of_matchAt? matched).1.rest_eq, List.append_assoc]

theorem Finds.room_lt (finds : regex.Finds place advance found) :
    room found.behind found.text.isEmpty < room place advance := by
  have lengths := congrArg List.length finds.rest_eq
  obtain ⟨middle, -, -, matched⟩ := finds
  have moved (isOn : advance = true) (isFirst : found.skipped = []) : found.text ≠ [] :=
    (leads_of_matchAt? matched).2.2 (by rw [isOn, isFirst]; rfl)
  simp only [List.length_append] at lengths
  unfold room
  by_cases isEmpty : found.text = []
  · cases advance with
    | false => simp [isEmpty] at lengths ⊢; omega
    | true =>
      have skips := List.length_pos_iff.mpr fun isFirst => moved rfl isFirst isEmpty
      simp [isEmpty]
      omega
  · have isLonger := List.length_pos_iff.mpr isEmpty
    simp only [List.isEmpty_iff, isEmpty, ↓reduceIte]
    split <;> omega

/-- The bound on the number of matches is never the reason to stop. -/
theorem matchesFrom_iterates {bound : Nat} (enough : room place advance < bound) :
    regex.Iterates place advance (regex.matchesFrom bound place advance).1
      (regex.matchesFrom bound place advance).2 := by
  induction bound generalizing place advance with
  | zero => cases enough
  | succ bound ih =>
    have searched := regex.search?_spec advance place.offset place.before place.rest
    unfold matchesFrom
    split
    · rename_i none
      rw [none] at searched
      exact .done searched
    · rename_i found isFound
      rw [isFound] at searched
      exact .next searched (ih (Nat.lt_of_lt_of_le searched.room_lt (Nat.le_of_lt_succ enough)))

/-- The matches and what stands between them are the subject. -/
theorem Iterates.rest_eq {all : List RegexMatch} {rest : List Char}
    (iterates : regex.Iterates place advance all rest) :
    place.rest = all.flatMap (fun each => each.skipped ++ each.text) ++ rest := by
  induction iterates with
  | done => rfl
  | next finds _ ih => simp [finds.rest_eq, ih]

end Regex

end ArrowScript

import ArrowScript.Proofs.Grammar.Braces
import ArrowScript.Proofs.Grammar.Landing
import ArrowScript.Proofs.Grammar.Storage

namespace ArrowScript

/-!
# Accounting for the tokens that parsers read

`Parser.Accounts` is the condition that all productions keep on any list of
tokens.  The tokens they read close no brace that they did not open, and they
leave one open only at the end of the input.

Some of the tokens read are `held` by the tree.  If there is no error, those
that carry meaning all are; behind an error recovery passes over tokens.  The
result satisfies a condition on what is held.  Of a `clean` text it does so if
no error was recorded.  An abandoned statement has recorded an error.
-/

open Braces
open scoped List

variable {closing : Token}

/-- What is closed by the last of the tokens read keeps what they keep. -/
theorem kept_closed {held read : List Token} (inside : held <+ read)
    (isLast : read.getLast? = some closing) (keeps : kept held = kept read) :
    kept (closed closing held) = kept read := by
  obtain ⟨front, rfl⟩ := List.getLast?_eq_some_iff.mp isLast
  unfold closed
  split
  · exact keeps
  · -- What is held stands in front of the closing token, so it keeps no more than stands there.
    have fewer := ((sublist_front inside ‹_›).filter Token.isContent).length_le
    have same := congrArg List.length keeps
    have notKept : closing.kept = [] := by
      apply List.eq_nil_of_length_eq_zero
      simp only [kept_append, kept_cons, kept_nil, List.append_nil, List.length_append] at same
      simp only [kept] at same
      omega
    simpa [notKept] using keeps

/-- The tokens of a list that carry the meaning of a clean text. -/
noncomputable def meaning (clean : Prop) (tokens : List Token) : List Token :=
  open Classical in if clean then kept tokens else []

section Meaning

variable (clean : Prop)

open Classical in
@[simp]
theorem meaning_cons (token : Token) (rest : List Token) :
    meaning clean (token :: rest) = (if clean then token.kept else []) ++ meaning clean rest := by
  by_cases isClean : clean <;> simp [meaning, isClean]

@[simp]
theorem meaning_nil : meaning clean [] = [] := by
  simp [meaning]

@[simp]
theorem meaning_append (first second : List Token) :
    meaning clean (first ++ second) = meaning clean first ++ meaning clean second := by
  by_cases isClean : clean <;> simp [meaning, isClean]

@[simp]
theorem meaning_flatMap (parts : List α) (tokens : α → List Token) :
    meaning clean (parts.flatMap tokens) = parts.flatMap fun part =>
      meaning clean (tokens part) := by
  by_cases isClean : clean <;> simp [meaning, isClean]

end Meaning

namespace Parser

/-- The tokens read close no brace of others, and leave one open only at the end of the input. -/
def Levels (read : List Token) (after : Cursor) : Prop :=
  ∃ left, level? 0 read = some left ∧ (left = 0 ∨ Ended after.rest)

theorem reads_nothing {before after : Cursor} {read : List Token} (ended : Ended before.rest)
    (reads : before.Reads read after) : read = [] := by
  obtain ⟨last, rest, shape, isEnd⟩ := ended
  cases read with
  | nil => rfl
  | cons token read =>
    have same := reads.rest_eq
    rw [shape] at same
    cases same
    exact (reads.inside last (by simp) isEnd).elim

theorem ended_of_reads {before after : Cursor} {read : List Token} (ended : Ended before.rest)
    (reads : before.Reads read after) : Ended after.rest := by
  have nothing := reads_nothing ended reads
  have same := reads.rest_eq
  rw [nothing, List.nil_append] at same
  rwa [← same]

namespace Levels

variable {before between after : Cursor} {read earlier later : List Token}

theorem nil : Levels [] after :=
  ⟨0, rfl, .inl rfl⟩

theorem of_no_braces (noBraces : ∀ token ∈ read, token.kind ∉ [Kind.braceOpen, .braceClose]) :
    Levels read after :=
  ⟨0, level?_of_no_braces noBraces, .inl rfl⟩

theorem append (levels : Levels earlier between) (reads : between.Reads later after)
    (levelsOn : Levels later after) : Levels (earlier ++ later) after := by
  obtain ⟨left, reaches, reason⟩ := levels
  rcases reason with rfl | ended
  · obtain ⟨rest, reachesOn, reasonOn⟩ := levelsOn
    exact ⟨rest, (level?_append reaches).trans reachesOn, reasonOn⟩
  · obtain rfl := reads_nothing ended reads
    refine ⟨left, ?_, .inr (ended_of_reads ended reads)⟩
    rwa [List.append_nil]

theorem of_rest_eq (levels : Levels read between) (same : after.rest = between.rest) :
    Levels read after := by
  unfold Levels
  rwa [same]

/-- Away from the end of the input no brace stays open. -/
theorem level?_eq {token : Token} {rest : List Token} (levels : Levels read after)
    (shape : after.rest = token :: rest) (inside : token.kind ≠ .endOfInput) :
    level? 0 read = some 0 := by
  obtain ⟨left, reaches, reason⟩ := levels
  rcases reason with rfl | ended
  · exact reaches
  · obtain ⟨last, rest', shape', isEnd⟩ := ended
    rw [shape] at shape'
    cases shape'
    exact (inside isEnd).elim

end Levels

variable {clean : Prop} {between after : Cursor} {read later held : List Token}

/-- What is held of the tokens read: everything that carries meaning, if there is no error. -/
structure Share (read held : List Token) (after : Cursor) : Prop where
  sublist : held <+ read
  all : after.errors = [] → kept held = kept read

theorem Share.append {heldLater : List Token} (share : Share read held between)
    (reads : between.Reads later after) (shareOn : Share later heldLater after) :
    Share (read ++ later) (held ++ heldLater) after where
  sublist := share.sublist.append shareOn.sublist
  all noErrors := by
    rw [kept_append, kept_append, share.all (reads.errors_eq_nil noErrors), shareOn.all noErrors]

theorem Share.close (share : Share read held after)
    (isLast : read.getLast? = some closing) : Share read (closed closing held) after where
  sublist := closed_sublist share.sublist isLast
  all noErrors := kept_closed share.sublist isLast (share.all noErrors)

theorem Share.meaning_closed (share : Share read held after)
    (isLast : read.getLast? = some closing) (noErrors : clean → after.errors = []) :
    meaning clean (closed closing held) = meaning clean held := by
  by_cases isClean : clean
  · simp [meaning, isClean, (share.close isLast).all (noErrors isClean),
      share.all (noErrors isClean)]
  · simp [meaning, isClean]

/-- What is held satisfies a condition, of a clean text if there is no error. -/
def Takes (clean : Prop) (post : List Token → Prop) (read : List Token) (after : Cursor) : Prop :=
  ∃ held, Share read held after ∧ ((clean → after.errors = []) → post held)

namespace Takes

theorem of_read {post : List Token → Prop} (sublist : held <+ read)
    (keeps : kept held = kept read)
    (holds : post held) : Takes clean post read after :=
  ⟨held, ⟨sublist, fun _ => keeps⟩, fun _ => holds⟩

theorem mono {stronger weaker : List Token → Prop} (takes : Takes clean stronger read after)
    (implied : ∀ held, stronger held → weaker held) : Takes clean weaker read after := by
  obtain ⟨held, share, holds⟩ := takes
  exact ⟨held, share, fun noErrors => implied held (holds noErrors)⟩

theorem append {first second both : List Token → Prop} (takes : Takes clean first read between)
    (reads : between.Reads later after) (takesOn : Takes clean second later after)
    (implied : ∀ held heldLater, first held → second heldLater → both (held ++ heldLater)) :
    Takes clean both (read ++ later) after := by
  obtain ⟨held, share, holds⟩ := takes
  obtain ⟨heldLater, shareOn, holdsOn⟩ := takesOn
  refine ⟨_, share.append reads shareOn, fun noErrors => implied _ _ ?_ (holdsOn noErrors)⟩
  exact holds fun isClean => reads.errors_eq_nil (noErrors isClean)

/-- Tokens that recovery passes over behind an error are not held. -/
theorem pass {post : List Token → Prop} (takes : Takes clean post read between)
    (hasErrors : after.errors ≠ []) : Takes clean post (read ++ later) after := by
  obtain ⟨held, share, holds⟩ := takes
  refine ⟨held, ⟨?_, ?_⟩, fun noErrors => holds ?_⟩
  · exact share.sublist.trans (List.sublist_append_left _ _)
  · exact fun noErrors => (hasErrors noErrors).elim
  · exact fun isClean => (hasErrors (noErrors isClean)).elim

theorem close {post : List Token → Prop} (takes : Takes clean post read after)
    (isLast : read.getLast? = some closing) : Takes clean (fun held => ∃ inner,
          post inner ∧ held = closed closing inner ∧ meaning clean held = meaning clean inner)
      read after := by
  obtain ⟨held, share, holds⟩ := takes
  exact ⟨_, share.close isLast, fun noErrors =>
    ⟨held, holds noErrors, rfl, share.meaning_closed isLast noErrors⟩⟩

theorem ne_nil {post : List Token → Prop} (takes : Takes clean post read after)
    (moves : ∀ held, post held → held ≠ []) (notClean : ¬ clean) : read ≠ [] := by
  obtain ⟨held, share, holds⟩ := takes
  rintro rfl
  exact moves held (holds fun isClean => (notClean isClean).elim)
    (List.sublist_nil.mp share.sublist)

theorem exists_sublist {post : List Token → Prop} (takes : Takes False post read after) :
    ∃ held, held <+ read ∧ post held := by
  obtain ⟨held, share, holds⟩ := takes
  exact ⟨held, share.sublist, holds False.elim⟩

end Takes

def Blank (held : List Token) : Prop :=
  held = []

/-- No brace is closed too many, and what is held satisfies a condition. -/
structure Tallies (clean : Prop) (post : List Token → Prop) (read : List Token)
    (after : Cursor) : Prop where
  levels : Levels read after
  takes : Takes clean post read after

theorem Tallies.append {first second both : List Token → Prop}
    (tallies : Tallies clean first read between)
    (reads : between.Reads later after) (talliesOn : Tallies clean second later after)
    (implied : ∀ held heldLater, first held → second heldLater → both (held ++ heldLater)) :
    Tallies clean both (read ++ later) after :=
  ⟨tallies.levels.append reads talliesOn.levels,
    tallies.takes.append reads talliesOn.takes implied⟩

theorem Tallies.mono {stronger weaker : List Token → Prop}
    (tallies : Tallies clean stronger read after)
    (implied : ∀ held, stronger held → weaker held) : Tallies clean weaker read after :=
  ⟨tallies.levels, tallies.takes.mono implied⟩

/-- A parser ends with all tokens accounted for. -/
def Accounts (clean : Prop) (bound : Nat) (parser : Parser α) (cursor : Cursor)
    (post : α → List Token → Prop) : Prop :=
  Lands clean bound parser cursor
    (fun result read after => Tallies clean (post result) read after)
    (fun read after => Levels read after ∧ after.errors ≠ [])

namespace Accounts

variable
  {α β σ : Type}
  {bound inner : Nat}
  {cursor : Cursor}
  {parser : Parser α}
  {post : α → List Token → Prop}

theorem mono {stronger weaker : α → List Token → Prop}
    (accounts : Accounts clean bound parser cursor stronger)
    (implied : ∀ result held, stronger result held → weaker result held) :
    Accounts clean bound parser cursor weaker :=
  Lands.mono accounts
    (fun result _ _ _ tallies => tallies.mono (implied result))
    (fun _ _ _ holds => holds)

theorem behind {given : Prop} {earlier : List Token} (levels : Levels earlier cursor)
    (share : Share earlier held cursor) (holds : (clean → cursor.errors = []) → given)
    (accounts : Accounts clean bound parser cursor fun result heldLater =>
      given → post result (held ++ heldLater)) :
    Lands clean bound parser cursor
      (fun result later after => Tallies clean (post result) (earlier ++ later) after)
      (fun later after => Levels (earlier ++ later) after ∧ after.errors ≠ []) := by
  apply Lands.mono accounts
  · rintro result later after reads ⟨levelsOn, heldLater, shareOn, holdsOn⟩
    refine ⟨levels.append reads levelsOn, _, share.append reads shareOn, fun noErrors => ?_⟩
    exact holdsOn noErrors (holds fun isClean => reads.errors_eq_nil (noErrors isClean))
  · rintro later after reads ⟨levelsOn, hasErrors⟩
    exact ⟨levels.append reads levelsOn, hasErrors⟩

/-- Behind a tally a parser keeps its own tally and adds it. -/
theorem follow {first : List Token → Prop} {earlier : List Token}
    (accounts : Accounts clean bound parser cursor post) (both : α → List Token → Prop)
    (tallies : Tallies clean first earlier cursor)
    (implied : ∀ result held heldLater, first held → post result heldLater →
      both result (held ++ heldLater)) :
    Lands clean bound parser cursor (fun result later after =>
        Tallies clean (post result) later after ∧
          Tallies clean (both result) (earlier ++ later) after)
      (fun later after => Levels (earlier ++ later) after ∧ after.errors ≠ []) := by
  apply Lands.mono accounts
  · intro result later after reads talliesOn
    exact ⟨talliesOn, tallies.append reads talliesOn (implied result)⟩
  · rintro later after reads ⟨levels, hasErrors⟩
    exact ⟨tallies.levels.append reads levels, hasErrors⟩

theorem le (accounts : Accounts clean (bound + 1) parser cursor post) :
    Accounts clean bound parser cursor post :=
  Lands.le accounts (Nat.le_succ bound)

theorem pure {value : α} (holds : post value []) :
    Accounts clean bound (Pure.pure value) cursor post :=
  Lands.pure ⟨.nil, .of_read (List.Sublist.refl _) rfl holds⟩

variable {cont : α → Parser β} {token : Token} {fault : GrammarFault}

/-- The later parser may use how the earlier one ended, and finds fewer tokens. -/
theorem bind_within {middle : α → List Token → Prop} {post : β → List Token → Prop}
    (accounts : Accounts clean bound parser cursor middle)
    (next : ∀ value held after, parser cursor = .ok value after → ∃ inner,
      (middle value held → bound ≤ inner + held.length) ∧
        Accounts clean inner (cont value) after fun result heldLater =>
          middle value held → post result (held ++ heldLater)) :
    Accounts clean bound (parser >>= cont) cursor post := by
  apply Lands.bind_within accounts
  rintro value read after - ended ⟨levels, held, share, holds⟩
  obtain ⟨inner, enough, rest⟩ := next value held after ended
  refine ⟨inner, fun notClean => ?_, rest.behind levels share holds⟩
  have room := enough (holds fun isClean => (notClean isClean).elim)
  have fewer := share.sublist.length_le
  omega

theorem bind {middle : α → List Token → Prop} {post : β → List Token → Prop}
    (accounts : Accounts clean bound parser cursor middle) (next : ∀ value held after,
      Accounts clean bound (cont value) after fun result heldLater =>
        middle value held → post result (held ++ heldLater)) :
    Accounts clean bound (parser >>= cont) cursor post :=
  accounts.bind_within fun value held after _ =>
    ⟨bound, fun _ => Nat.le_add_right _ _, next value held after⟩

theorem bind_deeper {middle : α → List Token → Prop} {post : β → List Token → Prop}
    (accounts : Accounts clean (bound + 1) parser cursor middle)
    (moves : ∀ value held, middle value held → held ≠ []) (next : ∀ value held after,
      Accounts clean bound (cont value) after fun result heldLater =>
        middle value held → post result (held ++ heldLater)) :
    Accounts clean (bound + 1) (parser >>= cont) cursor post := by
  apply accounts.bind_within
  intro value held after _
  refine ⟨bound, fun holds => ?_, next value held after⟩
  have moved := List.length_pos_iff.mpr (moves value held holds)
  omega

theorem report :
    Accounts clean bound (Parser.report token fault) cursor fun _ held => held = [] ∧
      ¬ clean := by
  refine ⟨[], ⟨rfl, rfl, by simp, List.prefix_append _ _⟩, .nil, [], ⟨.refl _, ?_⟩, ?_⟩
  · exact fun _ => rfl
  · exact fun noErrors => ⟨rfl, fun isClean => by simpa using noErrors isClean⟩

theorem abandon_bind {post : β → List Token → Prop} :
    Accounts clean bound (Parser.abandon token fault >>= cont) cursor post :=
  Lands.abandon_bind fun _ _ hasErrors => ⟨.nil, hasErrors⟩

theorem abandon : Accounts clean bound (Parser.abandon token fault) cursor post := by
  rw [← bind_pure (Parser.abandon token fault)]
  exact abandon_bind

theorem exhausted : Accounts clean 0 (throw .exhausted : Parser α) cursor post :=
  .inr cursor.not_fits_zero

end Accounts

end Parser

/-- Kinds of tokens that neither open nor close a brace nor end the input. -/
def Kind.isPlain (kind : Kind) : Bool :=
  kind ∉ [Kind.braceOpen, .braceClose, .endOfInput]

/-- Kinds of tokens that carry no meaning of their own. -/
def Kind.isMark (kind : Kind) : Bool :=
  kind ∉ Kind.text :: contentKinds

theorem kept_mark {token : Token} {kind : Kind} (isKind : token.kind = kind)
    (isMark : kind.isMark = true) : token.kept = [] := by
  have noContent : kind ≠ .text ∧ kind ∉ contentKinds := by
    simpa [Kind.isMark] using isMark
  simp [Token.kept, Token.isContent, isKind, noContent]

/-- What a tree holds of a token: the token itself, or nothing if it carries no meaning. -/
structure Parser.HeldAs (token : Token) (hold : List Token) : Prop where
  sublist : hold <+ [token]
  keeps : kept hold = kept [token]

theorem Parser.HeldAs.self (token : Token) : HeldAs token [token] :=
  ⟨.refl _, rfl⟩

theorem Parser.HeldAs.mark {token : Token} {kind : Kind} (isKind : token.kind = kind)
    (isMark : kind.isMark = true) : HeldAs token [] :=
  ⟨List.nil_sublist _, by simp [kept_mark isKind isMark]⟩

namespace Parser

namespace Accounts

variable
  {α β σ : Type}
  {clean : Prop}
  {bound inner : Nat}
  {cursor : Cursor}
  {post : β → List Token → Prop}
  {abandons : List Token → Cursor → Prop}

theorem look_bind {parser : Parser α} {cont : α → Parser β} (looks : Looks parser cursor)
    (next : ∀ value, Accounts clean bound (cont value) cursor post) :
    Accounts clean bound (parser >>= cont) cursor post :=
  Lands.look_bind looks fun value _ => next value

theorem peek_bind {cont : Token → Parser β}
    (next : ∀ token rest, cursor.rest = token :: rest →
      Accounts clean bound (cont token) cursor post) :
    Accounts clean bound (peek >>= cont) cursor post :=
  Lands.peek_bind next

variable {fault : GrammarFault} {kinds : List Kind} {token : Token} {kind : Kind}

theorem peek_abandon_bind {cont : α → Parser β} :
    Accounts clean bound (peek >>= fun token => Parser.abandon token fault >>= cont) cursor
      post :=
  peek_bind fun _ _ _ => abandon_bind

theorem check_bind {cont : Bool → Parser β}
    (holds : ∀ token rest, cursor.rest = token :: rest → token.kind ∈ kinds →
      Accounts clean bound (cont true) cursor post)
    (fails : ∀ token rest, cursor.rest = token :: rest → token.kind ∉ kinds →
      Accounts clean bound (cont false) cursor post) :
    Accounts clean bound (check kinds >>= cont) cursor post :=
  Lands.check_bind holds fails

/-- Behind a plain token a parser goes on with it; what it gives decides if the tree holds it. -/
theorem behind_either {parser : Parser β} (isKind : token.kind = kind)
    (plain : kind.isPlain = true)
    (accounts : Accounts clean bound parser cursor fun result held =>
      ∃ hold, HeldAs token hold ∧ post result (hold ++ held)) :
    Lands clean bound parser cursor
      (fun result later after => Tallies clean (post result) ([token] ++ later) after)
      (fun later after => Levels ([token] ++ later) after ∧ after.errors ≠ []) := by
  have levels (cursor : Cursor) : Levels [token] cursor :=
    .of_no_braces (by simp_all [Kind.isPlain])
  apply Lands.mono accounts
  · rintro result later after reads ⟨levelsOn, held, share, holds⟩
    refine ⟨(levels cursor).append reads levelsOn, ?_⟩
    have both {hold : List Token} (heldAs : HeldAs token hold) :
        Share ([token] ++ later) (hold ++ held) after :=
      Share.append ⟨heldAs.sublist, fun _ => heldAs.keeps⟩ reads share
    by_cases noErrors : clean → after.errors = []
    · obtain ⟨hold, heldAs, holds⟩ := holds noErrors
      exact ⟨_, both heldAs, fun _ => holds⟩
    · exact ⟨_, both (.self token), fun isClean => (noErrors isClean).elim⟩
  · rintro later after reads ⟨levelsOn, hasErrors⟩
    exact ⟨(levels cursor).append reads levelsOn, hasErrors⟩

theorem behind_token {parser : Parser β} {hold : List Token} (heldAs : HeldAs token hold)
    (isKind : token.kind = kind) (plain : kind.isPlain = true)
    (accounts : Accounts clean bound parser cursor fun result held => post result (hold ++ held)) :
    Lands clean bound parser cursor
      (fun result later after => Tallies clean (post result) ([token] ++ later) after)
      (fun later after => Levels ([token] ++ later) after ∧ after.errors ≠ []) :=
  behind_either isKind plain (accounts.mono fun _ _ holds => ⟨hold, heldAs, holds⟩)

theorem not_endOfInput (isKind : token.kind = kind) (plain : kind.isPlain = true) :
    token.kind ≠ .endOfInput := by
  rintro isEnd
  simp [Kind.isPlain, ← isKind, isEnd] at plain

theorem advance_bind {rest hold : List Token} {cont : Token → Parser β}
    (heldAs : HeldAs token hold) (shape : cursor.rest = token :: rest) (isKind : token.kind = kind)
    (plain : kind.isPlain = true)
    (next : ∀ after, Accounts clean bound (cont token) after fun result held =>
      post result (hold ++ held)) :
    Accounts clean (bound + 1) (advance >>= cont) cursor post :=
  Lands.advance_bind shape (not_endOfInput isKind plain) (Nat.le_refl _) fun after _ =>
    (next after).behind_token heldAs isKind plain

section

variable
  {hold : Token → List Token}
  {optional : Option Token → Parser β}
  {cont : Token → Parser β}
  (plain : ∀ kind ∈ kinds, kind.isPlain = true)

include plain

/-- A token is read if it is of one of the given kinds; the tree holds it or not. -/
theorem accept_within
    (heldAs : ∀ token : Token, token.kind ∈ kinds → HeldAs token (hold token))
    (enough : bound ≤ inner + 1)
    (found : ∀ token after, cursor.Reads [token] after → token.kind ∈ kinds →
      Accounts clean inner (optional (some token)) after fun result held =>
        post result (hold token ++ held))
    (absent : Accounts clean bound (optional none) cursor post) :
    Accounts clean bound (accept? kinds >>= optional) cursor post := by
  have inside : .endOfInput ∉ kinds := fun mem => absurd (plain _ mem) (by decide)
  apply Lands.accept_bind inside enough
  · intro token after reads mem
    exact (found token after reads mem).behind_token (heldAs token mem) rfl (plain _ mem)
  · exact fun _ _ _ _ => absent

theorem consume_within
    (heldAs : ∀ token : Token, token.kind ∈ kinds → HeldAs token (hold token))
    (next : ∀ token after, cursor.Reads [token] after → token.kind ∈ kinds →
      Accounts clean bound (cont token) after fun result held =>
        post result (hold token ++ held)) :
    Accounts clean bound (consume kinds fault >>= cont) cursor post := by
  unfold consume
  rw [bind_assoc]
  apply accept_within plain heldAs (Nat.le_succ _)
  · intro token after reads mem
    rw [pure_bind]
    exact next token after reads mem
  · rw [bind_assoc]
    exact peek_abandon_bind

theorem consume_bind (next : ∀ token after, token.kind ∈ kinds →
      Accounts clean bound (cont token) after fun result held =>
        post result (token :: held)) :
    Accounts clean bound (consume kinds fault >>= cont) cursor post :=
  consume_within plain (fun token _ => .self token) fun token after _ => next token after

variable (marks : ∀ kind ∈ kinds, kind.isMark = true)

include marks

theorem acceptMark_bind
    (found : ∀ token after, Accounts clean bound (optional (some token)) after post)
    (absent : Accounts clean bound (optional none) cursor post) :
    Accounts clean bound (accept? kinds >>= optional) cursor post :=
  accept_within plain (fun _ mem => .mark rfl (marks _ mem)) (Nat.le_succ _)
    (fun token after _ _ => found token after) absent

theorem acceptStored_bind (found : ∀ token after, token.kind ∈ kinds → token.kept = [] →
      Accounts clean bound (optional (some token)) after fun result held =>
        post result (token :: held))
    (absent : Accounts clean bound (optional none) cursor post) :
    Accounts clean bound (accept? kinds >>= optional) cursor post :=
  accept_within plain (fun token _ => .self token) (Nat.le_succ _)
    (fun token after _ mem => found token after mem (kept_mark rfl (marks _ mem))) absent

theorem acceptEither_bind (found : ∀ token after, token.kind ∈ kinds →
      Accounts clean bound (optional (some token)) after fun result held =>
        post result held ∨ post result (token :: held))
    (absent : Accounts clean bound (optional none) cursor post) :
    Accounts clean bound (accept? kinds >>= optional) cursor post := by
  have inside : .endOfInput ∉ kinds := fun mem => absurd (plain _ mem) (by decide)
  apply Lands.accept_bind inside (Nat.le_succ _)
  · intro token after _ mem
    apply behind_either rfl (plain _ mem)
    apply (found token after mem).mono
    rintro result held (holds | holds)
    · exact ⟨[], .mark rfl (marks _ mem), holds⟩
    · exact ⟨[token], .self token, holds⟩
  · exact fun _ _ _ _ => absent

theorem acceptMark : Accounts clean bound (accept? kinds) cursor fun _ => Blank := by
  rw [← bind_pure (accept? kinds)]
  apply acceptMark_bind plain marks
  · exact fun _ _ => pure rfl
  · exact pure rfl

theorem consumeMark_bind
    (next : ∀ token after, Accounts clean bound (cont token) after post) :
    Accounts clean bound (consume kinds fault >>= cont) cursor post :=
  consume_within plain (fun _ mem => .mark rfl (marks _ mem))
    fun token after _ _ => next token after

theorem consumeStored_bind (next : ∀ token after, token.kept = [] →
      Accounts clean bound (cont token) after fun result held =>
        post result (token :: held)) :
    Accounts clean bound (consume kinds fault >>= cont) cursor post :=
  consume_bind plain fun token after mem => next token after (kept_mark rfl (marks _ mem))

end

/-- The last token read closes what was read. -/
theorem bind_previous {parser : Parser α} {cont : α → Token → Parser β}
    {middle : α → List Token → Prop} (accounts : Accounts clean bound parser cursor middle)
    (started : cursor.previous.isSome) (moves : ∀ value held, middle value held → held ≠ [])
    (next : ∀ value closing held after,
      Accounts clean bound (cont value closing) after fun result heldLater =>
        middle value held → meaning clean (closed closing held) = meaning clean held →
        post result (closed closing held ++ heldLater)) :
    Accounts clean bound (parser >>= fun value => previous >>= cont value) cursor post := by
  apply Lands.bind accounts
  rintro value read after reads - ⟨levels, held, share, holds⟩
  apply Lands.look_bind (Looks.previous (reads.previous_isSome (.inl started)))
  intro closing looked
  by_cases nothing : read = []
  · -- Nothing was read of a clean text only, and behind an error nothing is promised of it.
    have impossible (noErrors : clean → after.errors = []) : False :=
      moves value held (holds noErrors)
        (List.sublist_nil.mp (nothing ▸ share.sublist))
    exact ((next value closing held after).mono fun _ _ _ => False.elim).behind levels share
      impossible
  · have isPrevious : after.previous = some closing := by
      unfold Parser.previous at looked
      split at looked <;> simp_all
    obtain ⟨last, isLast⟩ := Option.isSome_iff_exists.mp (List.getLast?_isSome.mpr nothing)
    have isClosing : last = closing := by
      simpa [reads.previous_eq, isLast] using isPrevious
    rw [isClosing] at isLast
    have both (noErrors : clean → after.errors = []) :
        middle value held ∧ meaning clean (closed closing held) = meaning clean held :=
      ⟨holds noErrors, share.meaning_closed isLast noErrors⟩
    exact ((next value closing held after).mono fun _ _ holds => and_imp.mpr holds).behind levels
      (share.close isLast) both

/-- Passing over line ends stops in front of another token, if there is one. -/
theorem skipLineEnds_go (tokens : List Token) (last : Option Token) :
    (∃ read after, skipLineEnds.go last tokens cursor = .ok () after ∧
          Passes last tokens read after.previous after.rest ∧
          (∀ token ∈ read, token.kind = .lineEnd) ∧ after.errors = cursor.errors) ∨
      (skipLineEnds.go last tokens cursor = .error .overrun cursor ∧ ¬ Terminated tokens) := by
  induction tokens generalizing last with
  | nil =>
    refine .inr ⟨rfl, fun ready => ?_⟩
    obtain ⟨token, rest, impossible⟩ := ready.exists_cons
    cases impossible
  | cons token rest ih =>
    unfold skipLineEnds.go
    split
    · rename_i isLineEnd
      rcases ih (some token) with
        ⟨read, after, ended, passes, lineEnds, same⟩ | ⟨stopped, missing⟩
      · refine .inl ⟨token :: read, after, ended, passes.cons (by simp [isLineEnd]), ?_, same⟩
        exact List.forall_mem_cons.mpr ⟨isLineEnd, lineEnds⟩
      · exact .inr ⟨stopped, fun ready => missing (ready.tail (by simp [isLineEnd]))⟩
    · exact .inl ⟨[], _, rfl, .nothing, by simp, rfl⟩

theorem skipLineEnds_lands : Lands clean bound Parser.skipLineEnds cursor
      (fun _ read after => Tallies clean Blank read after) abandons := by
  unfold Lands Parser.skipLineEnds
  rcases skipLineEnds_go cursor.rest cursor.previous with
    ⟨read, after, ended, passes, lineEnds, same⟩ | ⟨stopped, missing⟩
  · rw [ended]
    refine ⟨read, passes.reads same, .of_no_braces ?_, .of_read (List.nil_sublist _) ?_ rfl⟩
    · intro token mem
      simp [lineEnds token mem]
    · refine (List.filter_eq_nil_iff.mpr fun token mem => ?_).symm
      simp [Token.isContent, lineEnds token mem, contentKinds]
  · rw [stopped]
    exact .inr fun fits => missing fits.ready

theorem skipLineEnds : Accounts clean bound Parser.skipLineEnds cursor fun _ => Blank :=
  skipLineEnds_lands

/--
Recovery in a block leaves no brace open in front of the end of the input.  It
reads at least one token, unless it stands in front of the end of the input or,
inside a block, in front of a closing brace.
-/
theorem synchronize_lands {inBlock : Bool} (moved : inBlock = true → cursor.previous.isSome) :
    Lands clean bound (Parser.synchronize inBlock) cursor (fun _ read after =>
        (inBlock = true → Levels read after) ∧ ∀ token rest, cursor.rest = token :: rest →
            token.kind ≠ .endOfInput → (inBlock = true → token.kind ≠ .braceClose) →
              read ≠ [])
      abandons := by
  unfold Lands Parser.synchronize
  cases shape : cursor.rest with
  | nil =>
    refine .inr fun fits => ?_
    obtain ⟨token, rest, impossible⟩ := fits.ready.exists_cons
    cases shape.symm.trans impossible
  | cons token rest =>
    by_cases isEnd : token.kind = .endOfInput
    · simp only [isEnd, ↓reduceIte]
      refine ⟨[], ⟨shape, rfl, by simp, List.prefix_rfl⟩, fun _ => .nil, ?_⟩
      rintro _ _ ⟨rfl, rfl⟩ notEnd
      exact (notEnd isEnd).elim
    by_cases isClosing : inBlock = true ∧ token.kind = .braceClose
    · -- The closing brace of the block itself is a boundary: nothing may be read.
      obtain ⟨rfl, isBrace⟩ := isClosing
      obtain ⟨last, isLast⟩ := Option.isSome_iff_exists.mp (moved rfl)
      simp only [isBrace, reduceCtorEq, ↓reduceIte, isLast, decide_true, Bool.and_self]
      cases found : toBoundary true 0 (some last) (token :: rest) with
      | none => exact .inr fun fits => toBoundary_ne_none _ _ _ (shape ▸ fits.ready) found
      | some target =>
        obtain ⟨read, passes, levels⟩ := toBoundary_passes found
        rw [← shape, ← isLast] at passes
        refine ⟨read, passes.reads rfl, fun _ => levels rfl, ?_⟩
        rintro _ _ ⟨rfl, rfl⟩ _ notBrace
        exact (notBrace trivial isBrace).elim
    · have goesOn : (inBlock && decide (token.kind = .braceClose)) = false := by
        simpa using isClosing
      simp only [isEnd, ↓reduceIte, goesOn, Bool.false_eq_true]
      cases found : toBoundary inBlock (braceDepth 0 token) (some token) rest with
      | none =>
        refine .inr fun fits => toBoundary_ne_none _ _ _ ?_ found
        exact Terminated.tail (shape ▸ fits.ready) isEnd
      | some target =>
        obtain ⟨read, passes, levels⟩ := toBoundary_passes found
        have passesOn : Passes cursor.previous cursor.rest (token :: read) target.1 target.2 :=
          shape ▸ passes.cons isEnd
        refine ⟨token :: read, passesOn.reads rfl, fun isBlock => ?_, by simp⟩
        obtain ⟨next, steps⟩ : ∃ left, step? 0 token = some left :=
          exists_step? (.inr (by simpa [isBlock] using isClosing))
        rw [braceDepth_of_step? steps] at levels
        unfold Levels
        rw [level?_cons, steps]
        exact levels isBlock

/-- What the tokens of one round account for, those of all rounds do behind earlier tokens. -/
theorem rounds {body : σ → Parser (Round σ α)} {post : α → List Token → Prop}
    (invariant : σ → List Token → Prop) {given : Prop} {count : Nat} {state : σ}
    {earlier : List Token} (enough : bound ≤ count) (start : given → invariant state earlier)
    (step : ∀ state earlier cursor, Accounts clean bound (body state) cursor fun round held =>
      round.Holds (fun next => held ≠ [] ∧
            (invariant state earlier → invariant next (earlier ++ held))) (fun result =>
          invariant state earlier → post result (earlier ++ held))) :
    Accounts clean bound (Parser.rounds body count state) cursor fun result held =>
      given → post result (earlier ++ held) := by
  refine Lands.rounds
    (fun state read between =>
      Tallies clean (fun held => given → invariant state (earlier ++ held))
        read between)
    (fun result read after =>
      Tallies clean (fun held => given → post result (earlier ++ held))
        read after)
    (fun read after => Levels read after ∧ after.errors ≠ [])
    ?_ enough (.refl cursor) ⟨.nil, .of_read (List.Sublist.refl _) rfl (by simpa using start)⟩
  rintro state read between - ⟨levels, held, share, holds⟩
  apply Lands.mono (step state (earlier ++ held) between)
  · intro round later after reads talliesOn
    obtain ⟨heldLater, shareOn, holdsOn⟩ := talliesOn.takes
    have levelsAll := levels.append reads talliesOn.levels
    have shareAll := share.append reads shareOn
    have before (noErrors : clean → after.errors = []) : clean → between.errors = [] :=
      fun isClean => reads.errors_eq_nil (noErrors isClean)
    cases round with
    | again next =>
      refine ⟨fun notClean => ?_, levelsAll, _, shareAll, fun noErrors isGiven => ?_⟩
      · exact talliesOn.takes.ne_nil (fun _ holds => holds.1) notClean
      · have goesOn := (holdsOn noErrors).2 (holds (before noErrors) isGiven)
        rwa [List.append_assoc] at goesOn
    | done result =>
      refine ⟨levelsAll, _, shareAll, fun noErrors isGiven => ?_⟩
      have isDone := holdsOn noErrors (holds (before noErrors) isGiven)
      rwa [List.append_assoc] at isDone
  · rintro later after reads ⟨levelsOn, hasErrors⟩
    exact ⟨levels.append reads levelsOn, hasErrors⟩

end Accounts

end Parser

end ArrowScript

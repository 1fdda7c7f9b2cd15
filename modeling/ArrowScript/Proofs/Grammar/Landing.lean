import ArrowScript.Proofs.Grammar.Reading

namespace ArrowScript

/-!
# Where parsers land

`Parser.Lands` says where a parser leaves its cursor on any list of tokens: one
condition for a result, one for an abandoned statement.  Both speak about the
tokens read on the way.

A parser lands nowhere if it asks for a token that is not there or runs out of
rounds.  That happens only where the tokens are not terminated or more than a
bound.  It is shown for a text that need not be `clean`: what a parser promises
of a clean text holds only if no error was recorded, and an error may come later.
-/

theorem Cursor.Reads.errors_eq_nil {before after : Cursor} {read : List Token}
    (reads : before.Reads read after) (noErrors : after.errors = []) : before.errors = [] := by
  have grows := reads.errors_prefix
  rwa [noErrors, List.prefix_nil] at grows

/-- The tokens in front of a cursor are terminated, and there are at most `bound` of them. -/
structure Cursor.Fits (cursor : Cursor) (bound : Nat) : Prop where
  ready : Terminated cursor.rest
  short : cursor.rest.length ≤ bound

theorem Cursor.not_fits_zero (cursor : Cursor) : ¬ cursor.Fits 0 := by
  rintro ⟨ready, short⟩
  obtain ⟨token, rest, shape⟩ := ready.exists_cons
  simp [shape] at short

theorem Cursor.Reads.fits {before after : Cursor} {read : List Token} {outer inner : Nat}
    (reads : before.Reads read after) (enough : outer ≤ inner + read.length)
    (fits : before.Fits outer) : after.Fits inner := by
  have total := reads.length_rest
  have short := fits.short
  exact ⟨reads.terminated fits.ready, by omega⟩

namespace Parser

/-- What a round of a loop gives: a state to go on with, or a result. -/
def Round.Holds (goesOn : σ → Prop) (isDone : α → Prop) : Round σ α → Prop
  | .again next => goesOn next
  | .done result => isDone result

/-- Where a parser leaves its cursor: with a result, or when it abandons its statement. -/
def Lands (clean : Prop) (bound : Nat) (parser : Parser α) (cursor : Cursor)
    (returns : α → List Token → Cursor → Prop)
    (abandons : List Token → Cursor → Prop) : Prop :=
  match parser cursor with
  | .ok result after => ∃ read, cursor.Reads read after ∧ returns result read after
  | .error .abandoned after => ∃ read, cursor.Reads read after ∧ abandons read after
  | .error _ _ => clean ∨ ¬ cursor.Fits bound

variable {α β σ : Type} {clean : Prop} {bound inner : Nat} {cursor after : Cursor}

namespace Lands

section

variable
  {parser : Parser α}
  {returns : α → List Token → Cursor → Prop}
  {abandons : List Token → Cursor → Prop}

theorem of_ok {result : α} (lands : Lands clean bound parser cursor returns abandons)
    (ended : parser cursor = .ok result after) :
    ∃ read, cursor.Reads read after ∧ returns result read after := by
  unfold Lands at lands
  rwa [ended] at lands

theorem of_abandoned (lands : Lands clean bound parser cursor returns abandons)
    (ended : parser cursor = .error .abandoned after) :
    ∃ read, cursor.Reads read after ∧ abandons read after := by
  unfold Lands at lands
  rwa [ended] at lands

theorem of_stop {stop : Stop} (lands : Lands clean bound parser cursor returns abandons)
    (ended : parser cursor = .error stop after) (nowhere : stop ≠ .abandoned) :
    clean ∨ ¬ cursor.Fits bound := by
  unfold Lands at lands
  rw [ended] at lands
  cases stop with
  | abandoned => exact (nowhere rfl).elim
  | overrun => exact lands
  | exhausted => exact lands

/-- Where a parser lands is shown for each of its ends apart. -/
theorem intro (ends : ∀ result after, parser cursor = .ok result after →
      ∃ read, cursor.Reads read after ∧ returns result read after)
    (fails : ∀ after, parser cursor = .error .abandoned after →
      ∃ read, cursor.Reads read after ∧ abandons read after)
    (stops : ∀ stop after, parser cursor = .error stop after → stop ≠ .abandoned →
      clean ∨ ¬ cursor.Fits bound) :
    Lands clean bound parser cursor returns abandons := by
  unfold Lands
  split
  · exact ends _ _ ‹_›
  · exact fails _ ‹_›
  · rename_i nowhere ended
    exact stops _ _ ended fun isAbandoned => nowhere isAbandoned

theorem mono {returnsLess : α → List Token → Cursor → Prop}
    {abandonsLess : List Token → Cursor → Prop}
    (lands : Lands clean bound parser cursor returns abandons)
    (returning : ∀ result read after, cursor.Reads read after → returns result read after →
      returnsLess result read after)
    (abandoning : ∀ read after, cursor.Reads read after → abandons read after →
      abandonsLess read after) :
    Lands clean bound parser cursor returnsLess abandonsLess := by
  apply intro
  · intro result after ended
    obtain ⟨read, reads, holds⟩ := lands.of_ok ended
    exact ⟨read, reads, returning result read after reads holds⟩
  · intro after ended
    obtain ⟨read, reads, holds⟩ := lands.of_abandoned ended
    exact ⟨read, reads, abandoning read after reads holds⟩
  · exact fun _ _ => lands.of_stop

theorem le (lands : Lands clean bound parser cursor returns abandons) (fewer : inner ≤ bound) :
    Lands clean inner parser cursor returns abandons := by
  apply intro
  · exact fun _ _ => lands.of_ok
  · exact fun _ => lands.of_abandoned
  · intro stop after ended nowhere
    refine (lands.of_stop ended nowhere).imp_right fun tooMany fits => tooMany ?_
    exact ⟨fits.ready, Nat.le_trans fits.short fewer⟩

/-- In front of few enough tokens a parser stops only by abandoning its statement. -/
theorem stop_eq_abandoned {stop : Stop} (lands : Lands False bound parser cursor returns abandons)
    (fits : cursor.Fits bound) (ended : parser cursor = .error stop after) : stop = .abandoned := by
  cases stop with
  | abandoned => rfl
  | overrun | exhausted =>
    exact ((lands.of_stop ended nofun).elim id fun tooMany => tooMany fits).elim

theorem exists_ok (lands : Lands False bound parser cursor returns fun _ _ => False)
    (fits : cursor.Fits bound) : ∃ result read after,
      parser cursor = .ok result after ∧ cursor.Reads read after ∧
        returns result read after := by
  cases ended : parser cursor with
  | ok result after =>
    obtain ⟨read, reads, holds⟩ := lands.of_ok ended
    exact ⟨result, read, after, rfl, reads, holds⟩
  | error stop after =>
    obtain rfl := lands.stop_eq_abandoned fits ended
    obtain ⟨_, -, impossible⟩ := lands.of_abandoned ended
    exact impossible.elim

theorem pure {value : α} (holds : returns value [] cursor) :
    Lands clean bound (Pure.pure value) cursor returns abandons :=
  ⟨[], .refl cursor, holds⟩

/-- The later parser finds as many tokens less as the earlier one read. -/
theorem bind_within {cont : α → Parser β} {middle : α → List Token → Cursor → Prop}
    {returns : β → List Token → Cursor → Prop}
    (lands : Lands clean bound parser cursor middle abandons)
    (next : ∀ value read after, cursor.Reads read after → parser cursor = .ok value after →
      middle value read after → ∃ inner, (¬ clean → bound ≤ inner + read.length) ∧
          Lands clean inner (cont value) after
            (fun result later final => returns result (read ++ later) final)
            (fun later final => abandons (read ++ later) final)) :
    Lands clean bound (parser >>= cont) cursor returns abandons := by
  cases first : parser cursor with
  | ok value between =>
    obtain ⟨read, reads, holds⟩ := lands.of_ok first
    obtain ⟨inner, enough, rest⟩ := next value read between reads first holds
    have continued : (parser >>= cont) cursor = cont value between :=
      bind_of_ok first
    apply intro
    · intro result after ended
      obtain ⟨later, readsOn, satisfied⟩ := rest.of_ok (continued ▸ ended)
      exact ⟨read ++ later, reads.trans readsOn, satisfied⟩
    · intro after ended
      obtain ⟨later, readsOn, satisfied⟩ := rest.of_abandoned (continued ▸ ended)
      exact ⟨read ++ later, reads.trans readsOn, satisfied⟩
    · intro stop after ended nowhere
      by_cases isClean : clean
      · exact .inl isClean
      · refine (rest.of_stop (continued ▸ ended) nowhere).imp_right
          fun tooMany fits => tooMany ?_
        exact reads.fits (enough isClean) fits
  | error stop between =>
    have stopped : (parser >>= cont) cursor = .error stop between := by
      simp only [Bind.bind, EStateM.bind, first]
    apply intro
    · intro result after ended
      rw [stopped] at ended
      cases ended
    · intro after ended
      rw [stopped] at ended
      cases ended
      exact lands.of_abandoned first
    · intro _ after ended nowhere
      rw [stopped] at ended
      cases ended
      exact lands.of_stop first nowhere

theorem bind {cont : α → Parser β} {middle : α → List Token → Cursor → Prop}
    {returns : β → List Token → Cursor → Prop}
    (lands : Lands clean bound parser cursor middle abandons)
    (next : ∀ value read after, cursor.Reads read after → parser cursor = .ok value after →
      middle value read after → Lands clean bound (cont value) after
        (fun result later final => returns result (read ++ later) final)
        (fun later final => abandons (read ++ later) final)) :
    Lands clean bound (parser >>= cont) cursor returns abandons :=
  lands.bind_within fun value read after reads ended holds =>
    ⟨bound, fun _ => Nat.le_add_right _ _, next value read after reads ended holds⟩

/-- What one round keeps is kept by all of them; a loop that is done was done in its last round. -/
theorem rounds {body : σ → Parser (Round σ α)}
    (invariant : σ → List Token → Cursor → Prop)
    (returns : α → List Token → Cursor → Prop) (abandons : List Token → Cursor → Prop)
    {start : Cursor}
    (step : ∀ state earlier cursor, start.Reads earlier cursor →
      invariant state earlier cursor →
      Lands clean bound (body state) cursor (fun round read after => round.Holds
            (fun next => (¬ clean → read ≠ []) ∧ invariant next (earlier ++ read) after)
            (fun result => returns result (earlier ++ read) after))
        (fun read after => abandons (earlier ++ read) after))
    {count : Nat} (enough : bound ≤ count) {state : σ} {earlier : List Token}
    (reads : start.Reads earlier cursor) (holds : invariant state earlier cursor) :
    Lands clean bound (Parser.rounds body count state) cursor
      (fun result read after => returns result (earlier ++ read) after)
      (fun read after => abandons (earlier ++ read) after) := by
  -- Each round but the last reads a token, so the rounds suffice for fewer and fewer tokens.
  suffices within :
      ∀ limit, limit ≤ bound → limit ≤ count →
        Lands clean limit (Parser.rounds body count state) cursor
          (fun result read after => returns result (earlier ++ read) after)
          (fun read after => abandons (earlier ++ read) after) from
    within bound (Nat.le_refl _) enough
  clear enough
  induction count generalizing state earlier cursor with
  | zero =>
    intro limit _ none
    obtain rfl := Nat.le_zero.mp none
    exact .inr cursor.not_fits_zero
  | succ count ih =>
    intro limit fewer enough
    unfold Parser.rounds
    apply ((step state earlier cursor reads holds).le fewer).bind_within
    intro round read after readsOn _ kept
    cases round with
    | again next =>
      refine ⟨limit - 1, fun notClean => ?_, ?_⟩
      · have moved := List.length_pos_iff.mpr (kept.1 notClean)
        omega
      · simp only [← List.append_assoc]
        exact ih (reads.trans readsOn) kept.2 _ (by omega) (by omega)
    | done result =>
      refine ⟨limit, fun _ => Nat.le_add_right _ _, pure ?_⟩
      rwa [List.append_nil]

theorem attempt {fails : List Token → Cursor → Prop}
    (lands : Lands clean bound parser cursor returns fails) :
    Lands clean bound (Parser.attempt parser) cursor (fun found read after =>
        match found with
        | some result => returns result read after
        | none => fails read after)
      abandons := by
  unfold Lands Parser.attempt
  cases ended : parser cursor with
  | ok result after => exact lands.of_ok ended
  | error stop after =>
    cases stop with
    | abandoned => exact lands.of_abandoned ended
    | overrun => exact lands.of_stop ended (by decide)
    | exhausted => exact lands.of_stop ended (by decide)

theorem onAbandon {cleanup : Parser Unit} {fails : List Token → Cursor → Prop}
    (lands : Lands clean bound parser cursor returns fails)
    (cleans : ∀ read after, cursor.Reads read after → fails read after →
      Lands clean bound cleanup after (fun _ later final => abandons (read ++ later) final)
        (fun later final => abandons (read ++ later) final)) :
    Lands clean bound (Parser.onAbandon parser cleanup) cursor returns abandons := by
  unfold Parser.onAbandon
  apply lands.attempt.bind
  intro found read after reads _ holds
  cases found with
  | some result =>
    apply pure
    rwa [List.append_nil]
  | none =>
    apply (cleans read after reads holds).bind
    intro _ later final _ _ cleaned
    refine ⟨[], .refl _, ?_⟩
    simpa using cleaned

end

end Lands

theorem rounds_done {body : σ → Parser (Round σ α)} {count : Nat} {state : σ} {result : α}
    (ended : rounds body count state cursor = .ok result after) :
    ∃ last between, body last between = .ok (.done result) after := by
  induction count generalizing state cursor with
  | zero => cases ended
  | succ count ih =>
    unfold rounds at ended
    obtain ⟨round, between, first, later⟩ := bind_eq_ok ended
    cases round with
    | again next => exact ih later
    | done value =>
      cases later
      exact ⟨state, cursor, first⟩

/-- A parser only looks at tokens here: it leaves the cursor where it is. -/
def Looks (parser : Parser α) (cursor : Cursor) : Prop :=
  (∃ value, parser cursor = .ok value cursor) ∨
    (parser cursor = .error .overrun cursor ∧ ¬ Terminated cursor.rest)

namespace Looks

theorem pure (value : α) : Looks (Pure.pure value) cursor :=
  .inl ⟨value, rfl⟩

theorem bind {parser : Parser α} {next : α → Parser β} (looks : Looks parser cursor)
    (looksOn : ∀ value, parser cursor = .ok value cursor → Looks (next value) cursor) :
    Looks (parser >>= next) cursor := by
  rcases looks with ⟨value, ended⟩ | ⟨stopped, missing⟩
  · unfold Looks
    rw [bind_of_ok ended]
    exact looksOn value ended
  · refine .inr ⟨?_, missing⟩
    simp only [Bind.bind, EStateM.bind, stopped]

theorem of_some {parser : Parser α}
    (found : ∀ token rest, cursor.rest = token :: rest →
      ∃ value, parser cursor = .ok value cursor)
    (missing : cursor.rest = [] → parser cursor = .error .overrun cursor) :
    Looks parser cursor := by
  cases shape : cursor.rest with
  | nil =>
    refine .inr ⟨missing shape, fun ready => ?_⟩
    obtain ⟨token, rest, impossible⟩ := ready.exists_cons
    cases shape.symm.trans impossible
  | cons token rest => exact .inl (found token rest shape)

theorem peek : Looks Parser.peek cursor :=
  of_some (fun token _ shape => ⟨token, by simp [Parser.peek, shape]⟩)
    fun shape => by simp [Parser.peek, shape]

theorem peekNext : Looks Parser.peekNext cursor := by
  apply of_some
  · intro token rest shape
    cases rest <;> simp [Parser.peekNext, shape]
  · intro shape
    simp [Parser.peekNext, shape]

theorem previous (moved : cursor.previous.isSome) : Looks Parser.previous cursor := by
  obtain ⟨token, isLast⟩ := Option.isSome_iff_exists.mp moved
  exact .inl ⟨token, by simp [Parser.previous, isLast]⟩

theorem check (kinds : List Kind) : Looks (Parser.check kinds) cursor :=
  peek.bind fun _ _ => pure _

end Looks

theorem check_eq_ok {kinds : List Kind} {answer : Bool}
    (looked : check kinds cursor = .ok answer after) : ∃ token rest,
      cursor = after ∧ after.rest = token :: rest ∧ answer = kinds.contains token.kind := by
  obtain ⟨token, between, peeked, returned⟩ := bind_eq_ok looked
  unfold Parser.peek at peeked
  split at peeked
  · cases peeked
  · rename_i shape
    cases peeked
    cases returned
    exact ⟨_, _, rfl, shape, rfl⟩

namespace Lands

variable
  {returns : β → List Token → Cursor → Prop}
  {abandons : List Token → Cursor → Prop}

theorem look_bind {parser : Parser α} {cont : α → Parser β} (looks : Looks parser cursor)
    (next : ∀ value, parser cursor = .ok value cursor →
      Lands clean bound (cont value) cursor returns abandons) :
    Lands clean bound (parser >>= cont) cursor returns abandons := by
  rcases looks with ⟨value, ended⟩ | ⟨stopped, missing⟩
  · have rest := next value ended
    unfold Lands at rest ⊢
    rwa [bind_of_ok ended]
  · unfold Lands
    simp only [Bind.bind, EStateM.bind, stopped]
    exact .inr fun fits => missing fits.ready

theorem peek_bind {cont : Token → Parser β}
    (next : ∀ token rest, cursor.rest = token :: rest →
      Lands clean bound (cont token) cursor returns abandons) :
    Lands clean bound (peek >>= cont) cursor returns abandons := by
  apply look_bind Looks.peek
  intro token looked
  unfold Parser.peek at looked
  split at looked
  · cases looked
  · rename_i shape
    cases looked
    exact next token _ shape

variable {kinds : List Kind} {token : Token} {fault : GrammarFault}

theorem check_bind {next : Bool → Parser β}
    (holds : ∀ token rest, cursor.rest = token :: rest → token.kind ∈ kinds →
      Lands clean bound (next true) cursor returns abandons)
    (fails : ∀ token rest, cursor.rest = token :: rest → token.kind ∉ kinds →
      Lands clean bound (next false) cursor returns abandons) :
    Lands clean bound (check kinds >>= next) cursor returns abandons := by
  unfold check
  rw [bind_assoc]
  apply peek_bind
  intro token rest shape
  rw [pure_bind]
  by_cases member : token.kind ∈ kinds
  · simpa [member] using holds token rest shape member
  · simpa [member] using fails token rest shape member

theorem advance_bind {cont : Token → Parser β} {rest : List Token}
    (shape : cursor.rest = token :: rest) (inside : token.kind ≠ .endOfInput)
    (enough : bound ≤ inner + 1)
    (next : ∀ after, cursor.Reads [token] after → Lands clean inner (cont token) after
      (fun result later final => returns result ([token] ++ later) final)
      (fun later final => abandons ([token] ++ later) final)) :
    Lands clean bound (advance >>= cont) cursor returns abandons := by
  have advanced : advance cursor = .ok token (cursor.behind token rest) := by
    simp [advance, shape, inside, Cursor.behind]
  have lands : Lands clean bound advance cursor
      (fun value read _ => value = token ∧ read = [token]) abandons := by
    unfold Lands
    rw [advanced]
    exact ⟨[token], .behind shape inside, rfl, rfl⟩
  apply lands.bind_within
  rintro _ _ after reads - ⟨rfl, rfl⟩
  exact ⟨inner, fun _ => enough, next after reads⟩

theorem accept_bind {next : Option Token → Parser β} (inside : .endOfInput ∉ kinds)
    (enough : bound ≤ inner + 1)
    (found : ∀ token after, cursor.Reads [token] after → token.kind ∈ kinds →
      Lands clean inner (next (some token)) after
        (fun result later final => returns result ([token] ++ later) final)
        (fun later final => abandons ([token] ++ later) final))
    (absent : ∀ token rest, cursor.rest = token :: rest → token.kind ∉ kinds →
      Lands clean bound (next none) cursor returns abandons) :
    Lands clean bound (accept? kinds >>= next) cursor returns abandons := by
  unfold accept?
  rw [bind_assoc]
  apply check_bind
  · intro token rest shape mem
    simp only [↓reduceIte, bind_assoc, pure_bind]
    apply advance_bind shape (fun isEnd => inside (isEnd ▸ mem)) enough
    exact fun after reads => found token after reads mem
  · intro token rest shape notMember
    simp only [Bool.false_eq_true, ↓reduceIte, pure_bind]
    exact absent token rest shape notMember

theorem abandon_bind {next : α → Parser β}
    (fails : ∀ after : Cursor, after.rest = cursor.rest → after.errors ≠ [] →
      abandons [] after) :
    Lands clean bound (Parser.abandon token fault >>= next) cursor returns abandons :=
  ⟨[], ⟨rfl, rfl, by simp, List.prefix_append _ _⟩, fails _ rfl (by simp)⟩

theorem consume_bind {cont : Token → Parser β} (inside : .endOfInput ∉ kinds)
    (enough : bound ≤ inner + 1)
    (fails : ∀ after : Cursor, after.rest = cursor.rest → after.errors ≠ [] →
      abandons [] after)
    (next : ∀ token after, cursor.Reads [token] after → token.kind ∈ kinds →
      Lands clean inner (cont token) after
        (fun result later final => returns result ([token] ++ later) final)
        (fun later final => abandons ([token] ++ later) final)) :
    Lands clean bound (consume kinds fault >>= cont) cursor returns abandons := by
  unfold consume
  rw [bind_assoc]
  apply accept_bind inside enough
  · intro token after reads mem
    rw [pure_bind]
    exact next token after reads mem
  · intro token rest shape _
    rw [bind_assoc]
    apply peek_bind
    intro _ _ _
    exact abandon_bind fails

end Lands

variable {kinds : List Kind} {fault : GrammarFault} {token : Token}

theorem consume_of_mem {rest : List Token} (shape : cursor.rest = token :: rest)
    (mem : token.kind ∈ kinds) (inside : token.kind ≠ .endOfInput) :
    consume kinds fault cursor = .ok token (cursor.behind token rest) := by
  have looked : check kinds cursor = .ok true cursor := by
    simp [check, peek, shape, mem, Bind.bind, EStateM.bind, Pure.pure, EStateM.pure]
  have advanced : advance cursor = .ok token (cursor.behind token rest) := by
    simp [advance, shape, inside, Cursor.behind]
  unfold consume accept?
  rw [bind_assoc, bind_of_ok looked, if_pos rfl, bind_assoc, bind_of_ok advanced]
  rfl

theorem consume_eq_ok (inside : .endOfInput ∉ kinds)
    (ended : consume kinds fault cursor = .ok token after) :
    cursor.rest = token :: after.rest ∧ token.kind ∈ kinds := by
  have lands : Lands True 0 (consume kinds fault) cursor
      (fun token read _ => read = [token] ∧ token.kind ∈ kinds) (fun _ _ => True) := by
    rw [← bind_pure (consume kinds fault)]
    apply Lands.consume_bind inside (Nat.zero_le (0 + 1))
    · exact fun _ _ _ => trivial
    · exact fun token after _ mem => Lands.pure ⟨rfl, mem⟩
  obtain ⟨_, reads, rfl, mem⟩ := lands.of_ok ended
  exact ⟨reads.rest_eq, mem⟩

end Parser

end ArrowScript

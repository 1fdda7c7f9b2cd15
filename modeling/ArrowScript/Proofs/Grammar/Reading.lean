import ArrowScript.Grammar.Program

namespace ArrowScript

/-!
# What parsers read

A parser only moves its cursor forward: it reads tokens in front of the end of
the input and adds errors behind those recorded before.  `Cursor.Reads` says
which tokens were read on the way from one cursor to another.
-/

/-- The end of the input stands at the end of a list of tokens and nowhere else. -/
def Terminated (tokens : List Token) : Prop :=
  ∃ front last,
    tokens = front ++ [last] ∧
      last.kind = .endOfInput ∧
      ∀ token ∈ front, token.kind ≠ .endOfInput

namespace Terminated

theorem exists_cons {tokens : List Token} (terminated : Terminated tokens) :
    ∃ token rest, tokens = token :: rest := by
  obtain ⟨front, last, rfl, -, -⟩ := terminated
  cases front with
  | nil =>
    exact ⟨last, [], rfl⟩
  | cons token front =>
    exact ⟨token, front ++ [last], rfl⟩

variable {rest : List Token}

theorem tail {token : Token} (terminated : Terminated (token :: rest))
    (inside : token.kind ≠ .endOfInput) : Terminated rest := by
  obtain ⟨front, last, shape, isEnd, inner⟩ := terminated
  cases front with
  | nil =>
    cases shape
    exact (inside isEnd).elim
  | cons first front =>
    cases shape
    exact ⟨front, last, rfl, isEnd, fun token mem => inner token (by simp [mem])⟩

theorem rest_eq_nil {token : Token} (terminated : Terminated (token :: rest))
    (isEnd : token.kind = .endOfInput) : rest = [] := by
  obtain ⟨front, last, shape, -, inner⟩ := terminated
  cases front with
  | nil =>
    cases shape
    rfl
  | cons first front =>
    cases shape
    exact (inner token (by simp) isEnd).elim

theorem of_append {read : List Token} (terminated : Terminated (read ++ rest))
    (inside : ∀ token ∈ read, token.kind ≠ .endOfInput) : Terminated rest := by
  induction read with
  | nil =>
    exact terminated
  | cons token read ih =>
    apply ih
    · exact tail terminated (inside token (by simp))
    · exact fun other mem => inside other (by simp [mem])

theorem prepend {front : List Token} (terminated : Terminated rest)
    (inside : ∀ token ∈ front, token.kind ≠ .endOfInput) : Terminated (front ++ rest) := by
  obtain ⟨others, last, rfl, isEnd, inner⟩ := terminated
  refine ⟨front ++ others, last, by simp, isEnd, ?_⟩
  intro token mem
  exact (List.mem_append.mp mem).elim (inside token) (inner token)

end Terminated

namespace Cursor

/-- Going from one cursor to another reads the given tokens and may record errors. -/
structure Reads (before : Cursor) (read : List Token) (after : Cursor) : Prop where
  rest_eq : before.rest = read ++ after.rest
  previous_eq : after.previous = read.getLast?.or before.previous
  inside : ∀ token ∈ read, token.kind ≠ .endOfInput
  errors_prefix : before.errors <+: after.errors

/-- The cursor behind a token. -/
def behind (cursor : Cursor) (token : Token) (rest : List Token) : Cursor :=
  { cursor with previous := some token, rest := rest }

namespace Reads

theorem refl (cursor : Cursor) : cursor.Reads [] cursor where
  rest_eq := rfl
  previous_eq := rfl
  inside := by simp
  errors_prefix := List.prefix_rfl

theorem trans {first second third : Cursor} {earlier later : List Token}
    (reads : first.Reads earlier second) (readsOn : second.Reads later third) :
    first.Reads (earlier ++ later) third where
  rest_eq := by
    rw [reads.rest_eq, readsOn.rest_eq, List.append_assoc]
  previous_eq := by
    rw [readsOn.previous_eq, reads.previous_eq, List.getLast?_append, Option.or_assoc]
  inside := by
    intro token mem
    rcases List.mem_append.mp mem with inEarlier | inLater
    · exact reads.inside token inEarlier
    · exact readsOn.inside token inLater
  errors_prefix := reads.errors_prefix.trans readsOn.errors_prefix

theorem behind {cursor : Cursor} {token : Token} {rest : List Token}
    (shape : cursor.rest = token :: rest) (inside : token.kind ≠ .endOfInput) :
    cursor.Reads [token] (cursor.behind token rest) where
  rest_eq := shape
  previous_eq := rfl
  inside := by simpa using inside
  errors_prefix := List.prefix_rfl

variable {before after : Cursor} {read : List Token}

variable (reads : before.Reads read after)

include reads

theorem terminated (ready : Terminated before.rest) : Terminated after.rest := by
  rw [reads.rest_eq] at ready
  exact ready.of_append reads.inside

theorem length_rest : before.rest.length = read.length + after.rest.length := by
  rw [reads.rest_eq, List.length_append]

theorem length_le {bound : Nat} (short : before.rest.length ≤ bound) :
    after.rest.length ≤ bound := by
  have := reads.length_rest
  omega

theorem previous_isSome (moved : before.previous.isSome ∨ read ≠ []) :
    after.previous.isSome := by
  rw [reads.previous_eq]
  rcases moved with hadPrevious | nonempty
  · simp [hadPrevious]
  · simp [List.getLast?_isSome.mpr nonempty]

end Reads

end Cursor

theorem Parser.bind_of_ok {parser : Parser α} {next : α → Parser β}
    {cursor after : Cursor} {value : α} (ended : parser cursor = .ok value after) :
    (parser >>= next) cursor = next value after := by
  simp only [Bind.bind, EStateM.bind, ended]

theorem Parser.bind_eq_ok {parser : Parser α} {next : α → Parser β}
    {cursor after : Cursor} {result : β}
    (ended : (parser >>= next) cursor = .ok result after) : ∃ value between,
      parser cursor = .ok value between ∧ next value between = .ok result after := by
  cases first : parser cursor with
  | ok value between =>
    rw [bind_of_ok first] at ended
    exact ⟨value, between, rfl, ended⟩
  | error stop between =>
    simp only [Bind.bind, EStateM.bind, first] at ended
    cases ended

end ArrowScript

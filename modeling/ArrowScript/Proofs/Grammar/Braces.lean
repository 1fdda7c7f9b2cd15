import ArrowScript.Proofs.Grammar.Reading

namespace ArrowScript

/-!
# Counting braces

The brace that closes an open one is found by counting, whatever else stands
between the two.  `Braces.level?` counts the braces that are open behind a list
of tokens, and `Braces.partner?` finds the closing brace.

Error recovery passes over tokens with counters of its own.  In a block it never
passes the closing brace of the block, and behind the opening brace of a match
it stops right behind the brace that closes it.
-/

namespace Braces

/-- The tokens that open a brace. -/
def opens (token : Token) : Bool :=
  token.kind = .braceOpen

/-- The tokens that close a brace. -/
def closes (token : Token) : Bool :=
  token.kind = .braceClose

/-- As many braces are closed as opened, and in front of no token more are closed than opened. -/
structure Balanced (tokens : List Token) : Prop where
  even : tokens.countP opens = tokens.countP closes
  early : ∀ front, front <+: tokens → front.countP closes ≤ front.countP opens

/-- How many braces are open behind a token; nothing if it closes one that is not open. -/
def step? (opened : Nat) (token : Token) : Option Nat :=
  if opens token then some (opened + 1)
  else if closes token then
    match opened with
    | 0 => none
    | left + 1 => some left
  else some opened

/-- How many braces are open behind tokens; nothing if one is closed that is not open. -/
def level? (opened : Nat) (tokens : List Token) : Option Nat :=
  tokens.foldlM step? opened

/--
The first brace that closes one which was open before, when others are opened
and closed in between, and the tokens behind it.
-/
def partner? (opened : Nat) : List Token → Option (Token × List Token)
  | [] => none
  | token :: rest =>
    match step? opened token with
    | none => some (token, rest)
    | some left => partner? left rest

variable {opened left : Nat} {token opening closing : Token} {tokens first rest : List Token}

theorem step?_opening (isOpening : token.kind = .braceOpen) :
    step? opened token = some (opened + 1) := by
  simp [step?, opens, isOpening]

theorem step?_closing (isClosing : token.kind = .braceClose) :
    step? (opened + 1) token = some opened := by
  simp [step?, opens, closes, isClosing]

theorem step?_closing_none (isClosing : token.kind = .braceClose) : step? 0 token = none := by
  simp [step?, opens, closes, isClosing]

theorem step?_other (noBrace : token.kind ∉ [Kind.braceOpen, .braceClose]) :
    step? opened token = some opened := by
  have kinds : token.kind ≠ .braceOpen ∧ token.kind ≠ .braceClose := by
    simpa using noBrace
  simp [step?, opens, closes, kinds]

theorem level?_cons : level? opened (token :: rest) = (step? opened token).bind (level? · rest) :=
  List.foldlM_cons

theorem level?_append (reaches : level? opened first = some left) :
    level? opened (first ++ rest) = level? left rest := by
  unfold level? at reaches ⊢
  rw [List.foldlM_append, reaches]
  rfl

theorem step?_more (more : Nat) (reaches : step? opened token = some left) :
    step? (opened + more) token = some (left + more) := by
  unfold step? at reaches ⊢
  split at reaches
  · rename_i isOpening
    cases reaches
    rw [if_pos isOpening, Nat.add_right_comm]
  · rename_i noOpening
    rw [if_neg noOpening]
    split at reaches
    · rename_i isClosing
      rw [if_pos isClosing]
      cases opened with
      | zero => cases reaches
      | succ opened =>
        cases reaches
        rw [Nat.add_right_comm]
    · rename_i noClosing
      cases reaches
      rw [if_neg noClosing]

theorem level?_more (more : Nat) (reaches : level? opened tokens = some left) :
    level? (opened + more) tokens = some (left + more) := by
  induction tokens generalizing opened with
  | nil =>
    cases reaches
    rfl
  | cons token rest ih =>
    rw [level?_cons] at reaches ⊢
    obtain ⟨next, steps, later⟩ := Option.bind_eq_some_iff.mp reaches
    rw [step?_more more steps]
    exact ih later

theorem level?_of_no_braces
    (noBraces : ∀ token ∈ tokens, token.kind ∉ [Kind.braceOpen, .braceClose]) :
    level? opened tokens = some opened := by
  induction tokens with
  | nil => rfl
  | cons token rest ih =>
    obtain ⟨here, later⟩ := List.forall_mem_cons.mp noBraces
    rw [level?_cons, step?_other here]
    exact ih later

theorem count_of_step? (reaches : step? opened token = some left) :
    opened + (if opens token then 1 else 0) = left + (if closes token then 1 else 0) := by
  unfold step? at reaches
  split at reaches
  · rename_i isOpening
    have noClosing : closes token = false := by
      simp only [opens, decide_eq_true_eq] at isOpening
      simp [closes, isOpening]
    cases reaches
    simp [isOpening, noClosing]
  · rename_i noOpening
    split at reaches
    · rename_i isClosing
      cases opened with
      | zero => cases reaches
      | succ opened =>
        cases reaches
        simp [noOpening, isClosing]
    · rename_i noClosing
      cases reaches
      simp [noOpening, noClosing]

theorem count_of_level? (reaches : level? opened tokens = some left) :
    opened + tokens.countP opens = left + tokens.countP closes := by
  induction tokens generalizing opened with
  | nil =>
    cases reaches
    rfl
  | cons token rest ih =>
    rw [level?_cons] at reaches
    obtain ⟨next, steps, later⟩ := Option.bind_eq_some_iff.mp reaches
    have here := count_of_step? steps
    have behind := ih later
    rw [List.countP_cons, List.countP_cons]
    omega

/-- Tokens that never close a brace too many close none too many in front of any token. -/
theorem early_of_level? (reaches : level? 0 tokens = some left) :
    ∀ front, front <+: tokens → front.countP closes ≤ front.countP opens := by
  rintro front ⟨back, rfl⟩
  unfold level? at reaches
  rw [List.foldlM_append] at reaches
  obtain ⟨middle, toFront, -⟩ := Option.bind_eq_some_iff.mp reaches
  have counted := count_of_level? toFront
  omega

theorem balanced_of_level? (reaches : level? 0 tokens = some 0) : Balanced tokens where
  even := by
    have counted := count_of_level? reaches
    omega
  early := early_of_level? reaches

theorem partner?_append (reaches : level? opened first = some left) :
    partner? opened (first ++ rest) = partner? left rest := by
  induction first generalizing opened with
  | nil =>
    cases reaches
    rfl
  | cons token first ih =>
    rw [level?_cons] at reaches
    obtain ⟨next, steps, later⟩ := Option.bind_eq_some_iff.mp reaches
    rw [List.cons_append, partner?, steps]
    exact ih later

theorem partner?_at_end {last : Token} (inside : level? 0 tokens = some left)
    (isEnd : last.kind = .endOfInput) : partner? 0 (tokens ++ [last]) = none := by
  rw [partner?_append inside, partner?, step?_other (by simp [isEnd])]
  rfl

/-- The last of the tokens is the brace that closes one which was open in front of them. -/
def ClosedBy (opened : Nat) (closing : Token) (tokens : List Token) : Prop :=
  ∃ inside,
    tokens = inside ++ [closing] ∧
      level? opened inside = some 0 ∧
      closing.kind = .braceClose

theorem ClosedBy.partner?_eq (closed : ClosedBy 0 closing tokens) :
    partner? 0 (tokens ++ rest) = some (closing, rest) := by
  obtain ⟨inside, rfl, reaches, isClosing⟩ := closed
  rw [List.append_assoc, partner?_append reaches, List.singleton_append, partner?,
    step?_closing_none isClosing]

/-- An opening brace, and the tokens up to the brace that closes it. -/
theorem ClosedBy.level?_eq (closed : ClosedBy 0 closing tokens)
    (isOpening : opening.kind = .braceOpen) :
    level? 0 (opening :: tokens) = some 0 := by
  obtain ⟨inside, rfl, reaches, isClosing⟩ := closed
  rw [level?_cons, step?_opening isOpening, Option.bind_some,
    level?_append (level?_more 1 reaches), level?_cons, step?_closing isClosing]
  rfl

theorem ClosedBy.append (reaches : level? opened first = some left)
    (closed : ClosedBy left closing tokens) :
    ClosedBy opened closing (first ++ tokens) := by
  obtain ⟨inside, rfl, reachesOn, isClosing⟩ := closed
  refine ⟨first ++ inside, (List.append_assoc _ _ _).symm, ?_, isClosing⟩
  rw [level?_append reaches, reachesOn]

/-- The end of the input comes next. -/
def Ended (tokens : List Token) : Prop :=
  ∃ last rest, tokens = last :: rest ∧ last.kind = .endOfInput

/-- The counter of recovery does not lose a brace while one is open. -/
theorem braceDepth_of_step? (reaches : step? opened token = some left) :
    Parser.braceDepth opened token = left := by
  unfold Parser.braceDepth
  split
  · rename_i isOpening
    rw [step?_opening isOpening] at reaches
    exact Option.some.inj reaches
  · rename_i isClosing
    cases opened with
    | zero =>
      rw [step?_closing_none isClosing] at reaches
      cases reaches
    | succ opened =>
      rw [step?_closing isClosing] at reaches
      exact Option.some.inj reaches
  · rename_i noOpening noClosing
    rw [step?_other (by simpa using ⟨noOpening, noClosing⟩)] at reaches
    exact Option.some.inj reaches

/-- A token closes no brace too many as long as one is open, or when it is no closing brace. -/
theorem exists_step? (safe : opened ≠ 0 ∨ token.kind ≠ .braceClose) :
    ∃ left, step? opened token = some left := by
  by_cases isOpening : token.kind = .braceOpen
  · exact ⟨_, step?_opening isOpening⟩
  by_cases isClosing : token.kind = .braceClose
  · obtain ⟨opened, rfl⟩ := Nat.exists_eq_succ_of_ne_zero (safe.resolve_right (· isClosing))
    exact ⟨_, step?_closing isClosing⟩
  · exact ⟨_, step?_other (by simpa using ⟨isOpening, isClosing⟩)⟩

/-- What recovery passes over: tokens in front of the end of the input, up to the last one read. -/
structure Passes (previous : Option Token) (tokens read : List Token) (last : Option Token)
    (rest : List Token) : Prop where
  shape : tokens = read ++ rest
  last_eq : last = read.getLast?.or previous
  inside : ∀ token ∈ read, token.kind ≠ .endOfInput

namespace Passes

variable {previous last : Option Token} {read : List Token}

theorem nothing : Passes previous tokens [] previous tokens :=
  ⟨rfl, rfl, by simp⟩

theorem cons (inside : token.kind ≠ .endOfInput)
    (passes : Passes (some token) tokens read last rest) :
    Passes previous (token :: tokens) (token :: read) last rest where
  shape := by rw [passes.shape, List.cons_append]
  last_eq := by
    rw [passes.last_eq, List.getLast?_cons]
    cases read.getLast? <;> rfl
  inside := List.forall_mem_cons.mpr ⟨inside, passes.inside⟩

theorem reads {cursor after : Cursor}
    (passes : Passes cursor.previous cursor.rest read after.previous after.rest)
    (same : after.errors = cursor.errors) : cursor.Reads read after :=
  ⟨passes.shape, passes.last_eq, passes.inside, same ▸ List.prefix_rfl⟩

end Passes

/-- Recovery in a block stops at the level of the block, unless the input ends before. -/
theorem toBoundary_passes {inBlock : Bool} {depth : Nat} {previous last : Option Token}
    (stops : Parser.toBoundary inBlock depth previous tokens = some (last, rest)) :
    ∃ read, Passes previous tokens read last rest ∧ (inBlock = true →
      ∃ left, level? depth read = some left ∧ (left = 0 ∨ Ended rest)) := by
  induction tokens generalizing depth previous with
  | nil => cases stops
  | cons token tokens ih =>
    have here : (depth = 0 ∨ token.kind = .endOfInput) → ∃ read,
        Passes previous (token :: tokens) read previous (token :: tokens) ∧ (inBlock = true →
            ∃ left, level? depth read = some left ∧
              (left = 0 ∨ Ended (token :: tokens))) := by
      intro reason
      refine ⟨[], .nothing, fun _ => ⟨depth, rfl, ?_⟩⟩
      exact reason.imp_right fun isEnd => ⟨token, tokens, rfl, isEnd⟩
    have goesOn : token.kind ≠ .endOfInput →
        (inBlock = true → depth ≠ 0 ∨ token.kind ≠ .braceClose) →
        Parser.toBoundary inBlock (Parser.braceDepth depth token) (some token) tokens =
          some (last, rest) → ∃ read, Passes previous (token :: tokens) read last rest ∧
            (inBlock = true → ∃ left, level? depth read = some left ∧
              (left = 0 ∨ Ended rest)) := by
      intro noEnd safe later
      obtain ⟨read, passes, levels⟩ := ih later
      refine ⟨token :: read, passes.cons noEnd, fun isBlock => ?_⟩
      obtain ⟨next, steps⟩ := exists_step? (safe isBlock)
      rw [braceDepth_of_step? steps] at levels
      rw [level?_cons, steps]
      exact levels isBlock
    unfold Parser.toBoundary at stops
    split at stops
    · rename_i isEnd
      cases stops
      exact here (.inr isEnd)
    · rename_i noEnd
      split at stops
      · rename_i isOutside
        split at stops
        · cases stops
        · rename_i before
          split at stops
          · cases stops
            exact here (.inl isOutside)
          · rename_i noBoundary
            apply goesOn noEnd _ stops
            rintro rfl
            right
            intro isClosing
            simp [Parser.isBoundary, isClosing] at noBoundary
      · rename_i isInside
        exact goesOn noEnd (fun _ => .inl isInside) stops

/-- Looking for a closing brace stops behind it, unless the input ends before. -/
theorem pastBrace_passes {previous last : Option Token}
    (stops : Parser.pastBrace (opened + 1) previous tokens = some (last, rest)) :
    ∃ read, Passes previous tokens read last rest ∧
      ((∃ closing, ClosedBy opened closing read) ∨
      ∃ left, level? opened read = some left ∧ Ended rest) := by
  induction tokens generalizing opened previous with
  | nil => cases stops
  | cons token tokens ih =>
    unfold Parser.pastBrace at stops
    split at stops
    · rename_i isEnd
      cases stops
      exact ⟨[], .nothing, .inr ⟨opened, rfl, token, tokens, rfl, isEnd⟩⟩
    rename_i noEnd
    split at stops
    · rename_i isLast
      obtain ⟨isClosing, rfl⟩ : token.kind = .braceClose ∧ opened = 0 := by
        simpa using isLast
      cases stops
      exact ⟨[token], Passes.nothing.cons noEnd, .inl ⟨token, [], rfl, rfl, isClosing⟩⟩
    · rename_i notLast
      have safe : opened ≠ 0 ∨ token.kind ≠ .braceClose := by
        by_cases isZero : opened = 0
        · exact .inr fun isClosing => notLast (by simp [isClosing, isZero])
        · exact .inl isZero
      obtain ⟨next, steps⟩ := exists_step? safe
      have steps' : level? opened [token] = some next := by
        rw [level?_cons, steps]
        rfl
      rw [braceDepth_of_step? (step?_more 1 steps)] at stops
      obtain ⟨read, passes, ends⟩ := ih stops
      refine ⟨token :: read, passes.cons noEnd, ends.imp ?_ ?_⟩
      · rintro ⟨closing, closed⟩
        exact ⟨closing, closed.append steps'⟩
      · rintro ⟨left, reaches, ended⟩
        exact ⟨left, (level?_append steps').trans reaches, ended⟩

theorem toBoundary_ne_none (inBlock : Bool) (depth : Nat) (last : Token)
    (ready : Terminated tokens) : Parser.toBoundary inBlock depth (some last) tokens ≠ none := by
  induction tokens generalizing depth last with
  | nil =>
    obtain ⟨token, rest, impossible⟩ := ready.exists_cons
    cases impossible
  | cons token tokens ih =>
    unfold Parser.toBoundary
    split
    · simp
    · rename_i noEnd
      have goesOn := ih (Parser.braceDepth depth token) token (ready.tail noEnd)
      dsimp only
      split
      · split
        · simp
        · exact goesOn
      · exact goesOn

theorem pastBrace_ne_none (depth : Nat) (previous : Option Token) (ready : Terminated tokens) :
    Parser.pastBrace depth previous tokens ≠ none := by
  induction tokens generalizing depth previous with
  | nil =>
    obtain ⟨token, rest, impossible⟩ := ready.exists_cons
    cases impossible
  | cons token tokens ih =>
    unfold Parser.pastBrace
    split
    · simp
    · rename_i noEnd
      split
      · simp
      · exact ih _ _ (ready.tail noEnd)

end Braces

end ArrowScript

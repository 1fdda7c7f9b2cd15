import ArrowScript.Proofs.Grammar.Rereading

namespace ArrowScript

/-!
# Precedence of operators

The grammar gives exactly the well-formed trees: every expression that it gives
is well formed, and every well-formed expression is given back from its text.
-/

variable {tokens rest : List Token} {name : Token}

namespace Grammar

open ArrowScript.Parser

variable {clean : Prop} {rules : Productions} {bound low : Nat} {expr : Expr}

/--
Once the tokens of an expression are read, an access goes on with that
expression; the rounds it used are fewer than the tokens.
-/
def Reaches (rules : Productions) (expr : Expr) (tokens : List Token) : Prop :=
  ∃ used, used < tokens.length ∧ ∀ later rest result,
    Gives (Parser.rounds (accessRound rules) (rules.rounds - used) expr)
        later rest result →
      Gives (access rules) (tokens ++ later) rest result

theorem reaches_of_primary {token : Token}
    (given : ∀ rest, Gives (primary rules) (token :: tokens) rest expr) :
    Reaches rules expr (token :: tokens) :=
  ⟨0, Nat.zero_lt_succ _, fun later rest _ goesOn => (given (later ++ rest)).bind goesOn⟩

theorem Reaches.round {base : Expr} {before : List Token}
    (reaches : Reaches rules base before) (enough : before.length ≤ rules.rounds)
    (longer : tokens ≠ [])
    (given : ∀ rest, Gives (accessRound rules base) tokens rest (.again expr)) :
    Reaches rules expr (before ++ tokens) := by
  obtain ⟨used, fewer, goesOn⟩ := reaches
  have more : 0 < tokens.length := List.length_pos_of_ne_nil longer
  refine ⟨used + 1, by rw [List.length_append]; omega, fun later rest result given' => ?_⟩
  rw [List.append_assoc]
  apply goesOn
  have left : rules.rounds - used = rules.rounds - (used + 1) + 1 := by omega
  rw [left]
  exact (given (later ++ rest)).again given'

/-- An access stops in front of a token that is none. -/
theorem Reaches.gives {level : Nat}
    (reaches : Reaches rules expr tokens) (enough : tokens.length ≤ rules.rounds)
    (ends : Ends level rest) : Gives (access rules) tokens rest expr := by
  obtain ⟨used, fewer, goesOn⟩ := reaches
  obtain ⟨token, later, rfl, _, noAccess⟩ := ends
  have left : rules.rounds - used = rules.rounds - (used + 1) + 1 := by omega
  rw [← List.append_nil tokens]
  apply goesOn
  rw [left]
  apply Gives.done
  unfold accessRound
  apply (Gives.accept_none fun opens => noAccess (by simp_all)).look_bind
  apply (Gives.accept_none fun isMember => noAccess (by simp_all)).look_bind
  exact .pure _

/-- A name in front of `::` is read as a reference first. -/
def asRead : Expr → Expr
  | .groupName name => .reference name
  | expr => expr

theorem asGroup_asRead (group : Expr) (formed : group.Formed clean .base) :
    asGroup (asRead group) = group := by
  cases group with
  | reference name => cases (show Role.base = .value from formed)
  | _ => rfl

theorem asRead_of_value (expr : Expr) (formed : expr.Formed clean .value) : asRead expr = expr := by
  cases expr with
  | groupName name => cases (show Role.value = .base from formed)
  | _ => rfl

theorem callee_cases (callee : Expr) (formed : callee.Formed clean .callee) :
    (∃ name, callee = .functionName name) ∨
      ∃ group name, callee = .groupMember group name := by
  cases callee with
  | functionName name => exact .inl ⟨name, rfl⟩
  | groupMember group name => exact .inr ⟨group, name, rfl⟩
  | reference name => cases (show Role.callee = .value from formed)
  | groupName name => cases (show Role.callee = .base from formed)
  | literal | declaration | context => exact absurd rfl formed
  | binary op left right => cases formed.1
  | unary op operand => cases formed.1
  | _ => exact absurd rfl formed.1

theorem primary_of_single {token : Token}
    (single : (token.kind ∈ Kind.constants ∧ expr = .literal (constantOf token) token) ∨
      (token.kind = .identifier ∧ expr = .reference token) ∨
      (token.kind = .atSign ∧ expr = .context token))
    (rest : List Token) : Gives (primary rules) [token] rest expr := by
  unfold primary
  apply Gives.peek.look_bind
  rcases single with ⟨isConstant, rfl⟩ | ⟨isName, rfl⟩ | ⟨isContext, rfl⟩
  · have noEnd : token.kind ≠ .endOfInput :=
      (by decide : ∀ kind ∈ Kind.constants, kind ≠ .endOfInput) _ isConstant
    simp only [Kind.constants, List.mem_cons, List.not_mem_nil, or_false] at isConstant
    rcases isConstant with kind | kind | kind | kind | kind
    all_goals
      simp only [kind]
      exact (Gives.advance noEnd).token_bind (Gives.pure _)
  · simp only [isName]
    exact (Gives.advance (by simp [isName])).token_bind (Gives.pure _)
  · simp only [isContext]
    exact (Gives.advance (by simp [isContext])).token_bind (Gives.pure _)

theorem primary_of_opening {opening : Token}
    {production : Token → Parser Expr}
    (chosen : (opening.kind = .bracketOpen ∧ production = array rules) ∨
      (opening.kind = .parenOpen ∧ production = parenthesized rules))
    (given : Gives (production opening) tokens rest expr) :
    Gives (primary rules) (opening :: tokens) rest expr := by
  unfold primary
  apply Gives.peek.look_bind
  rcases chosen with ⟨kind, rfl⟩ | ⟨kind, rfl⟩
  all_goals
    simp only [kind]
    exact (Gives.advance (by simp [kind])).token_bind given

theorem primary_of_call {values : List Expr}
    (isName : name.kind = .command) (given : Gives (arguments rules) tokens rest values) :
    Gives (primary rules) (name :: tokens) rest (.call (.functionName name) values) := by
  unfold primary
  apply Gives.peek.look_bind
  simp only [isName]
  apply (Gives.advance (by simp [isName])).token_bind
  exact given.bind_look (Gives.pure _)

theorem elementRound_gives (rereads : Rereads clean rules bound) {opening closing : Token}
    {pos : Expr} (opens : opening.kind = .bracketOpen)
    (closes : closing.kind = .bracketClose) (writes : Writes clean pos tokens)
    (short : tokens.length < bound) (base : Expr) (rest : List Token) :
    Gives (accessRound rules base) (opening :: (tokens ++ [closing])) rest
      (.again (.element base pos opening closing)) := by
  unfold accessRound
  apply (Gives.accept (by simp [opens]) (by decide)).token_bind
  apply (rereads.expression writes short ⟨closing, rest, rfl, by simp [closes]⟩).bind
  exact (Gives.consume (by simp [closes]) (by decide)).token_bind (Gives.pure _)

theorem memberRound_gives {mark : Token} (isMark : mark.kind = .member)
    (isName : name.kind = .identifier) (base : Expr) (rest : List Token) :
    Gives (accessRound rules base) [mark, name] rest
      (.again (.groupMember (asGroup base) name)) := by
  unfold accessRound
  apply (Gives.accept_none (by simp [isMark])).look_bind
  apply (Gives.accept (by simp [isMark]) (by decide)).token_bind
  apply (Gives.consume (by simp [isName]) (by decide)).token_bind
  rw [if_neg (by simp [isName])]
  exact .pure _

theorem memberCallRound_gives {mark : Token} {values : List Expr}
    (isMark : mark.kind = .member) (isName : name.kind = .command)
    (given : Gives (arguments rules) tokens rest values) (base : Expr) :
    Gives (accessRound rules base) (mark :: name :: tokens) rest
      (.again (.call (.groupMember (asGroup base) name) values)) := by
  unfold accessRound
  apply (Gives.accept_none (by simp [isMark])).look_bind
  apply (Gives.accept (by simp [isMark]) (by decide)).token_bind
  apply (Gives.consume (by simp [isName]) (by decide)).token_bind
  rw [if_pos isName]
  exact given.bind_look (Gives.pure _)

/-- An access reaches every expression that is no operation, from its innermost base outwards. -/
theorem access_reaches (rereads : Rereads clean rules bound) {role : Role}
    (noCallee : role ≠ .callee) :
    (expr : Expr) → expr.Formed clean role → expr.Writable → expr.level = 8 →
      ∀ {tokens}, Fill expr.spelling tokens → tokens.length ≤ bound →
        Reaches rules (asRead expr) tokens
  | .literal _ _, _, ⟨isConstant, isValue⟩, _, _, fill, _ => by
      cases fill_kept fill
      exact reaches_of_primary (primary_of_single (.inl ⟨isConstant, by rw [isValue]; rfl⟩))
  | .reference _, _, isName, _, _, fill, _ | .groupName _, _, isName, _, _, fill, _ => by
      cases fill_kept fill
      exact reaches_of_primary (primary_of_single (.inr (.inl ⟨isName, rfl⟩)))
  | .context _, _, isContext, _, _, fill, _ => by
      cases fill_kept fill
      exact reaches_of_primary (primary_of_single (.inr (.inr ⟨isContext, rfl⟩)))
  | .grouping _ _ _, ⟨_, formed⟩, ⟨opens, closes, writable⟩, _, _, fill, short => by
      obtain ⟨own, rfl, fillOwn⟩ := fill_enclosed fill
      simp only [List.length_cons, List.length_append, List.length_nil] at short
      refine reaches_of_primary fun rest => primary_of_opening (.inr ⟨opens, rfl⟩) ?_
      exact grouping_gives rereads closes ⟨formed, writable, fillOwn⟩ (by omega)
  | .array _ _ _, ⟨_, formed⟩, ⟨opens, closes, writable⟩, _, _, fill, short => by
      obtain ⟨own, rfl, fillOwn⟩ := fill_enclosed fill
      simp only [List.length_cons, List.length_append, List.length_nil] at short
      refine reaches_of_primary fun rest => primary_of_opening (.inl ⟨opens, rfl⟩) ?_
      exact array_gives rereads closes formed writable fillOwn (by omega)
  | .object _ _ _, ⟨_, formed⟩, ⟨opens, closes, writable⟩, _, _, fill, short => by
      obtain ⟨own, rfl, fillOwn⟩ := fill_enclosed fill
      simp only [List.length_cons, List.length_append, List.length_nil] at short
      refine reaches_of_primary fun rest => primary_of_opening (.inr ⟨opens, rfl⟩) ?_
      exact object_gives rereads closes formed writable fillOwn (by omega)
  | .element base _ _ _, ⟨_, level, formedBase, formed⟩,
      ⟨opens, closes, writableBase, writable⟩, _, _, fill, short => by
      obtain ⟨before, behind, rfl, fillBase, fillBehind⟩ := fill_append_iff.mp fill
      obtain ⟨own, rfl, fillOwn⟩ := fill_enclosed fillBehind
      simp only [List.length_cons, List.length_append, List.length_nil] at short
      have reaches := access_reaches rereads (by decide) base formedBase writableBase level fillBase
        (by omega)
      rw [asRead_of_value base formedBase] at reaches
      have enough := rereads.rounds
      exact reaches.round (by omega) (by simp)
        (elementRound_gives rereads opens closes ⟨formed, writable, fillOwn⟩ (by omega) base)
  | .groupMember group name, ⟨isCallee, level, formed⟩, ⟨isName, writable⟩, _, _, fill,
    short => by
      obtain ⟨before, behind, rfl, fillGroup, fillBehind⟩ := fill_append_iff.mp fill
      obtain ⟨mark, others, rfl, isMark, fillName⟩ := fill_cons_iff.mp fillBehind
      cases fill_kept fillName
      simp only [List.length_cons, List.length_append, List.length_nil] at short
      have reaches := access_reaches rereads (by decide) group formed writable level fillGroup
        (by omega)
      have enough := rereads.rounds
      have noFunction : name.kind = .identifier := by
        have noCommand : name.kind ≠ .command :=
          fun isCommand => noCallee (isCallee.mpr isCommand)
        simpa [noCommand] using isName
      have next := reaches.round (by omega) (by simp)
        (memberRound_gives isMark noFunction (asRead group))
      rwa [asGroup_asRead group formed] at next
  | .call callee values, ⟨_, formedCallee, formed⟩, ⟨writableCallee, writable, noEnd⟩,
    _, _, fill,
      short => by
      obtain ⟨before, behind, rfl, fillCallee, fillBehind⟩ := fill_append_iff.mp fill
      obtain ⟨own, bang, rfl, isBang, fillOwn⟩ := fill_concat fillBehind
      have given : ∀ rest, Gives (arguments rules) (own ++ [bang]) rest values := fun rest =>
        arguments_gives rereads isBang formed writable noEnd fillOwn <| by
          simp only [List.length_append, List.length_cons, List.length_nil] at short
          omega
      rcases callee_cases callee formedCallee with ⟨name, rfl⟩ | ⟨group, name, rfl⟩
      · cases fill_kept fillCallee
        exact reaches_of_primary fun rest => primary_of_call writableCallee (given rest)
      · obtain ⟨isCallee, level, formedGroup⟩ := formedCallee
        obtain ⟨inFront, others, rfl, fillGroup, fillOthers⟩ := fill_append_iff.mp fillCallee
        obtain ⟨mark, last, rfl, isMark, fillName⟩ := fill_cons_iff.mp fillOthers
        cases fill_kept fillName
        simp only [List.length_cons, List.length_append, List.length_nil] at short
        have reaches := access_reaches rereads (by decide) group formedGroup writableCallee.2 level
          fillGroup (by omega)
        have enough := rereads.rounds
        have next := reaches.round (by omega) (List.cons_ne_nil mark (name :: (own ++ [bang])))
          fun rest => memberCallRound_gives isMark (isCallee.mp rfl) (given rest) (asRead group)
        rw [asGroup_asRead group formedGroup] at next
        simpa [asRead] using next
  | .binary operator _ _, _, _, level, _, _, _ => by
      have := operator.kind.level_le
      exact absurd level (by rw [Expr.level]; omega)
  | .unary _ _, _, _, level, _, _, _ => absurd level (show 7 ≠ 8 by decide)
  | .functionName _, formed, _, _, _, _, _ => absurd formed noCallee
  | .declaration _ _, _, writable, _, _, _, _ => writable.elim
  | .assign _ _, _, writable, _, _, _, _ => writable.elim
  | .choice _ _ _ _ _, _, writable, _, _, _, _ => writable.elim
  | .block _, _, writable, _, _, _, _ => writable.elim
  | .push _ _ _, _, writable, _, _, _, _ => writable.elim
  | .interpolation _ _ _, _, writable, _, _, _, _ => writable.elim

theorem unary_gives (rereads : Rereads clean rules bound) (writes : Writes clean expr tokens)
    (short : tokens.length ≤ bound)
    (tight : 7 ≤ expr.level) (ends : Ends 7 rest) : Gives (unary rules) tokens rest expr := by
  obtain ⟨formed, writable, fill⟩ := writes
  unfold unary
  by_cases isAccess : expr.level = 8
  · have reaches := access_reaches rereads (by decide) expr formed writable isAccess fill short
    rw [asRead_of_value expr formed] at reaches
    have noOperator := expr.firstToken_kind_of_level formed writable isAccess
    have given := reaches.gives (Nat.le_trans short rereads.rounds) ends
    obtain ⟨more, rfl, _, _⟩ := fill_starts writable fill
    apply (Gives.accept_none noOperator).look_bind
    exact given
  · cases expr with
    | unary op operand =>
      obtain ⟨_, tightOperand, formedOperand⟩ := formed
      obtain ⟨isOperator, writableOperand⟩ := writable
      obtain ⟨first, more, rfl, rfl, fillMore⟩ := fill_cons_iff.mp fill
      rw [List.length_cons] at short
      apply (Gives.accept isOperator (by decide)).token_bind
      have given := rereads.unary ⟨formedOperand, writableOperand, fillMore⟩ (by omega)
        tightOperand ends
      exact given.bind_look (Gives.pure _)
    | binary op left right =>
      have loose := op.kind.level_le
      rw [Expr.level] at tight
      omega
    | _ => exact absurd rfl isAccess

/-- One round of a layer: another operand behind an operator of the layer, or none. -/
def layerRound (rules : Productions) (operators : List Kind) (tighter : List (List Kind))
    (left : Expr) : Parser (Round Expr Expr) := do
  match ← accept? operators with
  | none => return .done left
  | some op =>
    let right ← binary rules tighter
    return .again (.binary op left right)

/--
Once the tokens of an expression are read, a layer goes on with that expression;
the rounds it used are fewer than the tokens.
-/
def LayerReaches (rules : Productions) (operators : List Kind) (tighter : List (List Kind))
    (low : Nat) (expr : Expr) (tokens : List Token) : Prop :=
  ∃ used, used < tokens.length ∧ ∀ later rest result, Ends (low + 1) (later ++ rest) →
    Gives (Parser.rounds (layerRound rules operators tighter) (rules.rounds - used) expr)
        later rest result →
      Gives (binary rules (operators :: tighter)) (tokens ++ later) rest result

/-- The operands of a layer are read back. -/
def RereadsLayer (clean : Prop) (rules : Productions) (bound low : Nat)
    (layers : List (List Kind)) : Prop :=
  ∀ {expr tokens rest}, Writes clean expr tokens → tokens.length ≤ bound →
    low ≤ expr.level →
    Ends low rest → Gives (binary rules layers) tokens rest expr

theorem ends_of_operator {op : Token} (isLevel : op.kind.level = low)
    (positive : low ≠ 0) (rest : List Token) : Ends (low + 1) (op :: rest) := by
  refine ⟨op, rest, rfl, by omega, fun isAccess => positive ?_⟩
  rw [← isLevel]
  simp only [List.mem_cons, List.not_mem_nil, or_false] at isAccess
  rcases isAccess with isOpening | isMember
  · rw [isOpening]
    rfl
  · rw [isMember]
    rfl

/-- A layer reaches every expression of its level, from its first operand outwards. -/
theorem layer_reaches {operators : List Kind} {tighter : List (List Kind)}
    (enough : bound ≤ rules.rounds) (positive : low ≠ 0) (loose : low ≤ 6)
    (sameLevel : ∀ kind, kind ∈ operators ↔ kind.level = low)
    (rereads : RereadsLayer clean rules bound (low + 1) tighter) (expr : Expr)
    {tokens : List Token} (writes : Writes clean expr tokens) (short : tokens.length ≤ bound)
    (atLeast : low ≤ expr.level) : LayerReaches rules operators tighter low expr tokens := by
  by_cases tight : low + 1 ≤ expr.level
  · refine ⟨0, ?_, fun later rest result ends goesOn => ?_⟩
    · obtain ⟨more, rfl, _⟩ := fill_starts writes.writable writes.fill
      exact Nat.zero_lt_succ _
    · exact (rereads writes short tight ends).bind goesOn
  · cases expr with
    | binary op left right =>
      obtain ⟨⟨_, _, leftTight, rightTight, formedLeft, formedRight⟩,
        ⟨_, writableLeft, writableRight⟩, fill⟩ := writes
      have isLevel : op.kind.level = low := by
        rw [Expr.level] at tight atLeast
        omega
      rw [isLevel] at leftTight rightTight
      obtain ⟨before, behind, rfl, fillLeft, fillBehind⟩ := fill_append_iff.mp fill
      obtain ⟨first, own, rfl, rfl, fillRight⟩ := fill_cons_iff.mp fillBehind
      simp only [List.length_append, List.length_cons] at short
      obtain ⟨used, fewer, reaches⟩ :=
        layer_reaches enough positive loose sameLevel rereads left
          ⟨formedLeft, writableLeft, fillLeft⟩ (by omega) leftTight
      refine ⟨used + 1, by rw [List.length_append, List.length_cons]; omega, ?_⟩
      intro later rest result ends goesOn
      rw [List.append_assoc]
      apply reaches _ _ _ (ends_of_operator isLevel positive _)
      have left : rules.rounds - used = rules.rounds - (used + 1) + 1 := by omega
      rw [left]
      refine Gives.again ?_ goesOn
      unfold layerRound
      have noEnd : .endOfInput ∉ operators := fun isEnd => positive ((sameLevel _).mp isEnd).symm
      apply (Gives.accept ((sameLevel _).mpr isLevel) noEnd).token_bind
      have given := rereads ⟨formedRight, writableRight, fillRight⟩ (by omega) rightTight ends
      exact given.bind_look (Gives.pure _)
    | unary op operand => exact absurd (show low + 1 ≤ 7 by omega) tight
    | _ => exact absurd (show low + 1 ≤ 8 by omega) tight
termination_by expr

theorem Ascending.le_seven {layers : List (List Kind)}
    (ascending : Ascending low layers) : low ≤ 7 := by
  induction layers generalizing low with
  | nil => exact Nat.le_of_eq ascending
  | cons operators tighter ih =>
    exact Nat.le_of_succ_le (ih ascending.2.2)

theorem binary_gives (rereads : Rereads clean rules bound)
    {layers : List (List Kind)} (ascending : Ascending low layers) :
    RereadsLayer clean rules bound low layers := by
  induction layers generalizing low with
  | nil =>
    cases ascending
    exact unary_gives rereads
  | cons operators tighter ih =>
    obtain ⟨positive, sameLevel, above⟩ := ascending
    intro expr tokens rest writes short atLeast ends
    have loose : low ≤ 6 := Nat.le_of_succ_le_succ above.le_seven
    obtain ⟨used, fewer, reaches⟩ :=
      layer_reaches rereads.rounds positive loose sameLevel (ih above) expr writes
        short atLeast
    rw [← List.append_nil tokens]
    apply reaches [] rest expr (ends.mono (Nat.le_succ low))
    have enough := rereads.rounds
    have left : rules.rounds - used = rules.rounds - (used + 1) + 1 := by omega
    rw [left]
    apply Gives.done
    unfold layerRound
    obtain ⟨token, later, rfl, looser, _⟩ := ends
    have noOperator : token.kind ∉ operators := fun isOperator => by
      have := (sameLevel _).mp isOperator
      omega
    apply (Gives.accept_none noOperator).look_bind
    exact .pure _

theorem operand_gives (rereads : Rereads clean rules bound) (writes : Writes clean expr tokens)
    (short : tokens.length ≤ bound)
    (ends : Ends 1 rest) : Gives (operand rules) tokens rest expr := by
  refine binary_gives rereads layers_ascending writes short ?_ ends
  obtain ⟨formed, _, _⟩ := writes
  cases expr with
  | binary op left right => exact Nat.pos_of_ne_zero formed.2.1
  | unary op operand => exact Nat.le_add_left 1 6
  | _ => exact Nat.le_add_left 1 7

theorem expression_gives (rereads : Rereads clean rules bound) (writes : Writes clean expr tokens)
    (short : tokens.length ≤ bound)
    (behind : BehindPart rest) : Gives (expression rules) tokens rest expr := by
  unfold expression
  apply (operand_gives rereads writes short behind.ends).bind_look
  obtain ⟨token, later, rfl, kind⟩ := behind
  have noArrow : token.kind ∉ [Kind.arrow] := fun isArrow => by
    rw [List.mem_singleton] at isArrow
    simp [isArrow] at kind
  apply (Gives.accept_none noArrow).look_bind
  exact .pure expr

/-- The productions of a depth read back everything that has fewer tokens. -/
theorem productions_rereads (clean : Prop) (depth : Nat) :
    Rereads clean (Grammar.productions depth) (depth - 1) := by
  induction depth with
  | zero =>
    exact
      { rounds := Nat.le_refl 0
        operand := fun _ short => absurd short (Nat.not_lt_zero _)
        expression := fun _ short => absurd short (Nat.not_lt_zero _)
        unary := fun _ short => absurd short (Nat.not_lt_zero _) }
  | succ depth ih =>
    exact
      { rounds := Nat.le_refl depth
        operand := fun writes short behind =>
          operand_gives ih writes (Nat.le_sub_one_of_lt short) behind.ends
        expression := fun writes short behind =>
          expression_gives ih writes (Nat.le_sub_one_of_lt short) behind
        unary := fun writes short tight ends =>
          unary_gives ih writes (Nat.le_sub_one_of_lt short) tight ends }

/--
Whatever tokens an operand is read from, its tree is well formed.  Conversely
the tokens that spell a well-formed expression are read back as that expression,
without an error and up to their end, when the token behind them cannot go on it.
-/
theorem operand_gives_exactly_wellFormed (depth : Nat) :
    (∀ cursor expr after, operand (Grammar.productions depth) cursor = .ok expr after →
        expr.Formed (after.errors = []) .value) ∧
      ∀ (expr : Expr) (tokens rest : List Token) (last : Option Token)
        (errors : List GrammarError),
        expr.Formed False .value → expr.Writable → Fill expr.spelling tokens → Ends 1 rest →
          tokens.length < depth →
            operand (Grammar.productions depth) ⟨last, tokens ++ rest, errors⟩ =
              .ok expr ⟨tokens.getLast?.or last, rest, errors⟩ := by
  refine ⟨fun cursor expr after ended => ?_, ?_⟩
  · have builds := operand_builds (productions_forming (after.errors = []) depth)
    exact (builds.of_ok ended).2 id
  · intro expr tokens rest last errors formed writable fill ends short
    have rereads := productions_rereads False depth
    exact operand_gives rereads ⟨formed, writable, fill⟩
      (Nat.le_sub_one_of_lt short) ends last errors

/-- A token of a kind at the start of a text. -/
def tokenOf (kind : Kind) (lexeme : String) : Token :=
  ⟨kind, lexeme, default, .none⟩

/-- `-a * g::@f b, c! + d` in front of the end of the input. -/
theorem operand_gives_sum_of_product :
    operand (Grammar.productions 13)
        ⟨none,
          [tokenOf .minus "-", tokenOf .identifier "a", tokenOf .star "*",
            tokenOf .identifier "g", tokenOf .member "::", tokenOf .command "@f",
            tokenOf .identifier "b", tokenOf .comma ",", tokenOf .identifier "c",
            tokenOf .bang "!", tokenOf .plus "+", tokenOf .identifier "d"] ++
            [tokenOf .endOfInput ""], []⟩ =
      .ok
        (.binary (tokenOf .plus "+")
          (.binary (tokenOf .star "*")
            (.unary (tokenOf .minus "-") (.reference (tokenOf .identifier "a")))
            (.call
              (.groupMember (.groupName (tokenOf .identifier "g")) (tokenOf .command "@f"))
              [.reference (tokenOf .identifier "b"), .reference (tokenOf .identifier "c")]))
          (.reference (tokenOf .identifier "d")))
        ⟨some (tokenOf .identifier "d"), [tokenOf .endOfInput ""], []⟩ := by
  refine (operand_gives_exactly_wellFormed 13).2 _ _ _ none [] ?_ ?_ ?_ ?_ (by decide)
  · simp [Expr.Formed, Expr.ListFormed, Expr.level, Kind.level, tokenOf]
  · simp [Expr.Writable, Expr.ListWritable, Expr.firstToken, Kind.level, argumentEnds, tokenOf]
  · repeat' constructor
  · exact ⟨_, _, rfl, by decide⟩

end Grammar

end ArrowScript

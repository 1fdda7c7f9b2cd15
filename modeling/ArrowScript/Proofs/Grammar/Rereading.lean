import ArrowScript.Proofs.Grammar.Formation
import ArrowScript.Proofs.Grammar.Spelling

namespace ArrowScript

/-!
# Reading back what is written

The productions for expressions read the tokens that spell a well-formed tree
back as that tree, record no error and stop behind them, when the token there
cannot go on the expression.

The loops of the grammar build a tree from its innermost left part outwards.
So what is said of a loop is where it stands when the tokens of a tree are
read: it goes on with that tree, and with one round less for each operation on
the left edge of the tree.
-/

namespace Parser

/-- In front of `tokens` and `rest` a parser gives a value, records no error and stops at `rest`. -/
def Gives (parser : Parser α) (tokens rest : List Token) (value : α) : Prop :=
  ∀ last errors,
    parser ⟨last, tokens ++ rest, errors⟩ =
      .ok value ⟨tokens.getLast?.or last, rest, errors⟩

namespace Gives

variable {α β σ : Type} {tokens later rest : List Token} {token : Token}

theorem pure (value : α) : Gives (Pure.pure value) [] rest value :=
  fun _ _ => rfl

variable {parser : Parser α} {cont : α → Parser β} {value : α} {result : β}
  {kinds : List Kind}

theorem bind (gives : Gives parser tokens (later ++ rest) value)
    (next : Gives (cont value) later rest result) :
    Gives (parser >>= cont) (tokens ++ later) rest result := by
  intro last errors
  rw [List.append_assoc, bind_of_ok (gives last errors), next, List.getLast?_append,
    Option.or_assoc]

theorem token_bind (gives : Gives parser [token] (later ++ rest) value)
    (next : Gives (cont value) later rest result) :
    Gives (parser >>= cont) (token :: later) rest result :=
  gives.bind next

theorem look_bind (gives : Gives parser [] (tokens ++ rest) value)
    (next : Gives (cont value) tokens rest result) :
    Gives (parser >>= cont) tokens rest result :=
  gives.bind next

theorem bind_look (gives : Gives parser tokens rest value)
    (next : Gives (cont value) [] rest result) :
    Gives (parser >>= cont) tokens rest result :=
  List.append_nil tokens ▸ bind gives next

theorem peek : Gives Parser.peek [] (token :: rest) token :=
  fun _ _ => rfl

theorem advance (noEnd : token.kind ≠ .endOfInput) : Gives Parser.advance [token] rest token :=
  fun _ _ => if_neg noEnd

theorem check_true (mem : token.kind ∈ kinds) :
    Gives (Parser.check kinds) [] (token :: rest) true := by
  have contains : kinds.contains token.kind = true := by simpa using mem
  exact contains ▸ peek.look_bind (pure (kinds.contains token.kind))

theorem check_false (absent : token.kind ∉ kinds) :
    Gives (Parser.check kinds) [] (token :: rest) false := by
  have contains : kinds.contains token.kind = false := by simpa using absent
  exact contains ▸ peek.look_bind (pure (kinds.contains token.kind))

theorem accept (mem : token.kind ∈ kinds) (noEnd : .endOfInput ∉ kinds) :
    Gives (Parser.accept? kinds) [token] rest (some token) := by
  unfold Parser.accept?
  apply (check_true mem).look_bind
  exact (advance fun isEnd => noEnd (isEnd ▸ mem)).token_bind (pure (some token))

theorem accept_none (absent : token.kind ∉ kinds) :
    Gives (Parser.accept? kinds) [] (token :: rest) none := by
  unfold Parser.accept?
  apply (check_false absent).look_bind
  exact pure none

theorem consume {fault : GrammarFault} (mem : token.kind ∈ kinds)
    (noEnd : .endOfInput ∉ kinds) :
    Gives (Parser.consume kinds fault) [token] rest token := by
  unfold Parser.consume
  exact (accept mem noEnd).token_bind (pure token)

theorem again {body : σ → Parser (Round σ α)} {state next : σ} {count : Nat} {result : α}
    (gives : Gives (body state) tokens (later ++ rest) (.again next))
    (goesOn : Gives (Parser.rounds body count next) later rest result) :
    Gives (Parser.rounds body (count + 1) state) (tokens ++ later) rest result :=
  gives.bind goesOn

theorem done {body : σ → Parser (Round σ α)} {state : σ} {count : Nat} {result : α}
    (gives : Gives (body state) tokens rest (.done result)) :
    Gives (Parser.rounds body (count + 1) state) tokens rest result :=
  gives.bind_look (pure result)

end Gives

end Parser

namespace Grammar

open ArrowScript.Parser

variable {clean : Prop} {rules : Productions} {bound : Nat}

/-- Tokens spell an expression that is well formed and keeps the tokens that its nodes need. -/
structure Writes (clean : Prop) (expr : Expr) (tokens : List Token) : Prop where
  formed : expr.Formed clean .value
  writable : expr.Writable
  fill : Fill expr.spelling tokens

/-- The first token cannot go on an expression that binds at least as tight as a level. -/
def Ends (level : Nat) (tokens : List Token) : Prop :=
  ∃ token rest, tokens = token :: rest ∧ token.kind.level < level ∧
    token.kind ∉ [Kind.bracketOpen, .member]

variable {tokens rest : List Token} {expr : Expr} {closing opening : Token}

theorem Ends.mono {level higher : Nat} (ends : Ends level tokens) (le : level ≤ higher) :
    Ends higher tokens := by
  obtain ⟨token, rest, shape, loose, noAccess⟩ := ends
  exact ⟨token, rest, shape, Nat.lt_of_lt_of_le loose le, noAccess⟩

/-- The first token ends a part of a list or of a literal. -/
def BehindPart (tokens : List Token) : Prop :=
  ∃ token rest, tokens = token :: rest ∧
    token.kind ∈ [Kind.comma, .bang, .bracketClose, .parenClose]

theorem BehindPart.ends (behind : BehindPart tokens) : Ends 1 tokens := by
  obtain ⟨token, rest, rfl, kind⟩ := behind
  refine ⟨token, rest, rfl, ?_⟩
  exact (by decide : ∀ kind ∈ [Kind.comma, .bang, .bracketClose, .parenClose],
    kind.level < 1 ∧ kind ∉ [Kind.bracketOpen, .member]) _ kind

theorem behindPart_of_fill {parts : List (List Slot)}
    (fill : Fill (parts.flatMap (.mark .comma :: ·)) tokens) (closing : Token)
    (closes : closing.kind ∈ [Kind.bang, .bracketClose, .parenClose]) (rest : List Token) :
    BehindPart (tokens ++ closing :: rest) := by
  cases parts with
  | nil =>
    cases fill_nil_iff.mp fill
    exact ⟨closing, rest, rfl, List.mem_cons_of_mem _ closes⟩
  | cons part parts =>
    rw [List.flatMap_cons, List.cons_append, fill_cons_iff] at fill
    obtain ⟨comma, later, rfl, (isComma : comma.kind = .comma), _⟩ := fill
    exact ⟨comma, later ++ closing :: rest, rfl, isComma ▸ List.mem_cons_self⟩

/-- Tokens that spell an expression start with the token that names its place. -/
theorem fill_starts (writable : expr.Writable) (fill : Fill expr.spelling tokens) :
    ∃ more, tokens = expr.firstToken :: more ∧ expr.firstToken.kind ∈ Kind.starts ∧
      (expr.firstToken.kind ∈ keyKinds → ∀ token ∈ more.head?, token.kind ≠ .colon) := by
  obtain ⟨⟨slots, shape, noColon⟩, kind⟩ := expr.startsWith writable
  rw [shape, fill_cons_iff] at fill
  obtain ⟨first, more, rfl, rfl, fillMore⟩ := fill
  refine ⟨more, rfl, kind, fun isKey token isNext => ?_⟩
  cases fillMore with
  | nil => cases isNext
  | cons holdsNext _ =>
    cases isNext
    rw [holdsNext.kind_eq]
    exact noColon isKey _ rfl

/-- Productions read back expressions that are written with fewer than `bound` tokens. -/
structure Rereads (clean : Prop) (rules : Productions) (bound : Nat) : Prop where
  rounds : bound ≤ rules.rounds
  operand :
    ∀ {expr tokens rest}, Writes clean expr tokens → tokens.length < bound →
      BehindPart rest →
      Gives rules.operand tokens rest expr
  expression :
    ∀ {expr tokens rest}, Writes clean expr tokens → tokens.length < bound →
      BehindPart rest →
      Gives rules.expression tokens rest expr
  unary : ∀ {expr tokens rest}, Writes clean expr tokens → tokens.length < bound →
    7 ≤ expr.level →
    Ends 7 rest → Gives rules.unary tokens rest expr

/-- A comma in front of an expression starts no item of an object literal around it. -/
theorem commaStartsItem_gives (writable : expr.Writable) (fill : Fill expr.spelling tokens)
    (behind : BehindPart rest) (comma : Token) :
    Gives commaStartsItem [] (comma :: (tokens ++ rest)) false := by
  obtain ⟨more, rfl, start, noColon⟩ := fill_starts writable fill
  obtain ⟨token, later, rfl, kind⟩ := behind
  have noColonBehind : token.kind ≠ .colon := fun isColon => by simp [isColon] at kind
  have next : Gives peekNext [] (comma :: (expr.firstToken :: more ++ token :: later))
      expr.firstToken := fun _ _ => rfl
  unfold commaStartsItem
  apply next.look_bind
  have noSpread : expr.firstToken.kind ≠ .spread :=
    (by decide : ∀ kind ∈ Kind.starts, kind ≠ .spread) _ start
  rw [if_neg noSpread]
  by_cases isKey : expr.firstToken.kind ∈ keyKinds
  · rw [if_pos (by simpa using isKey)]
    cases more with
    | nil =>
      have third : Gives peekThird [] (comma :: ([expr.firstToken] ++ token :: later)) token :=
        fun _ _ => rfl
      apply third.look_bind
      rw [decide_eq_false noColonBehind]
      exact .pure false
    | cons second more =>
      have third :
          Gives peekThird [] (comma :: (expr.firstToken :: second :: more ++ token :: later))
            second := fun _ _ => rfl
      apply third.look_bind
      rw [decide_eq_false (noColon isKey second rfl)]
      exact .pure false
  · rw [if_neg (by simpa using isKey)]
    exact .pure false

/-- One round of the arguments of a call: another argument behind a comma, or their end. -/
def argumentRound (rules : Productions)
    (args : List Expr) : Parser (Round (List Expr) (List Expr)) := do
  if ← check [.comma] then
    if ← commaStartsItem then
      return .done args
    let _ ← advance
    let argument ← rules.operand
    return .again (args ++ [argument])
  else
    let _ ← accept? [.bang]
    return .done args

theorem argumentRounds_give (rereads : Rereads clean rules bound) {bang : Token}
    (closes : bang.kind = .bang) (more : List Expr) (formed : Expr.ListFormed clean more)
    (writable : Expr.ListWritable more) :
    ∀ (tokens : List Token) (before : List Expr) (count : Nat),
      Fill ((Expr.listSpelling more).flatMap (.mark .comma :: ·)) tokens →
      tokens.length < bound → more.length < count →
        Gives (Parser.rounds (argumentRound rules) count before) (tokens ++ [bang]) rest
          (before ++ more) := by
  induction more with
  | nil =>
    intro tokens before count fill _ enough
    cases fill_nil_iff.mp fill
    obtain ⟨count, rfl⟩ := Nat.exists_eq_add_of_lt enough
    rw [List.append_nil]
    apply Gives.done
    unfold argumentRound
    apply (Gives.check_false (by simp [closes])).look_bind
    exact (Gives.accept (by simp [closes]) (by decide)).token_bind (Gives.pure _)
  | cons arg more ih =>
    intro tokens before count fill short enough
    obtain ⟨count, rfl⟩ := Nat.exists_eq_add_of_lt (Nat.zero_lt_of_lt enough)
    obtain ⟨formedFirst, formedMore⟩ := formed
    obtain ⟨writableFirst, writableMore⟩ := writable
    rw [Expr.listSpelling, List.flatMap_cons, List.cons_append, fill_cons_iff] at fill
    obtain ⟨comma, later, rfl, (isComma : comma.kind = .comma), fill⟩ := fill
    obtain ⟨own, others, rfl, fillOwn, fillOthers⟩ := fill_append_iff.mp fill
    simp only [List.length_cons, List.length_append] at short enough
    have behind := behindPart_of_fill fillOthers bang (by simp [closes]) rest
    have round : Gives (argumentRound rules before) (comma :: own) (others ++ bang :: rest)
        (.again (before ++ [arg])) := by
      unfold argumentRound
      apply (Gives.check_true (by simp [isComma])).look_bind
      apply (commaStartsItem_gives writableFirst fillOwn behind comma).look_bind
      apply (Gives.advance (by simp [isComma])).token_bind
      have given := rereads.operand ⟨formedFirst, writableFirst, fillOwn⟩ (by omega) behind
      exact given.bind_look (Gives.pure _)
    have goesOn :=
      ih formedMore writableMore others (before ++ [arg]) (0 + count)
        fillOthers (by omega) (by omega)
    have split : comma :: (own ++ others) ++ [bang] = comma :: own ++ (others ++ [bang]) := by simp
    rw [split, List.append_cons before]
    exact .again (by simpa using round) goesOn

theorem length_le_of_fill {parts : List (List Slot)}
    (fill : Fill (parts.flatMap (.mark .comma :: ·)) tokens) : parts.length ≤ tokens.length := by
  induction parts generalizing tokens with
  | nil => exact Nat.zero_le _
  | cons part parts ih =>
    rw [List.flatMap_cons, List.cons_append, fill_cons_iff] at fill
    obtain ⟨comma, later, rfl, _, fill⟩ := fill
    obtain ⟨own, others, rfl, _, fillOthers⟩ := fill_append_iff.mp fill
    have count := ih fillOthers
    simp only [List.length_cons, List.length_append]
    omega

theorem arguments_gives (rereads : Rereads clean rules bound) {bang : Token}
    {args : List Expr} (closes : bang.kind = .bang) (formed : Expr.ListFormed clean args)
    (writable : Expr.ListWritable args)
    (noEnd : ∀ first ∈ args.head?, first.firstToken.kind ∉ .bang :: argumentEnds)
    (fill : Fill (Slot.separated (Expr.listSpelling args)) tokens) (short : tokens.length < bound) :
    Gives (Grammar.arguments rules) (tokens ++ [bang]) rest args := by
  unfold Grammar.arguments
  cases args with
  | nil =>
    cases fill_nil_iff.mp fill
    exact (Gives.accept (by simp [closes]) (by decide)).token_bind (Gives.pure [])
  | cons first more =>
    obtain ⟨own, others, rfl, fillOwn, fillOthers⟩ := fill_append_iff.mp fill
    have behind := behindPart_of_fill fillOthers bang (by simp [closes]) rest
    obtain ⟨formedFirst, formedMore⟩ := formed
    obtain ⟨writableFirst, writableMore⟩ := writable
    obtain ⟨tail, rfl, _, _⟩ := fill_starts writableFirst fillOwn
    have noEnd := noEnd first rfl
    have rounds := rereads.rounds
    have count : more.length < rules.rounds := by
      have := length_le_of_fill fillOthers
      simp only [Expr.listSpelling_eq, List.length_map, List.length_append] at this short
      omega
    simp only [List.length_append] at short
    rw [List.append_assoc]
    apply (Gives.accept_none fun isBang => noEnd (by simp_all)).look_bind
    apply (Gives.check_false fun isEnd => noEnd (List.mem_cons_of_mem _ isEnd)).look_bind
    have given :=
      rereads.operand ⟨formedFirst, writableFirst, fillOwn⟩ (by omega) behind
    refine Gives.bind (by simpa using given) ?_
    exact argumentRounds_give rereads closes more formedMore writableMore others [first] _
      fillOthers (by omega) count

/-- One round of the items of a literal: another item, and a comma unless it is the last. -/
def separatedRound (part : Parser α)
    (items : List α) : Parser (Round (List α) (List α)) := do
  let item ← part
  if (← accept? [.comma]).isSome then
    return .again (items ++ [item])
  else
    return .done (items ++ [item])

/-- A production reads back a part that is written with fewer than `bound` tokens. -/
def RereadsPart (bound : Nat) (part : Parser α) (spelling : List Slot)
    (item : α) : Prop :=
  ∀ {tokens rest}, Fill spelling tokens → tokens.length < bound → BehindPart rest →
    Gives part tokens rest item

theorem separatedRounds_give {part : Parser α} {spelling : α → List Slot}
    (closes : closing.kind ∈ [Kind.bang, .bracketClose, .parenClose]) (more : List α) :
    ∀ (item : α) (tokens : List Token) (before : List α) (count : Nat),
      (∀ other ∈ item :: more, RereadsPart bound part (spelling other) other) →
      Fill (Slot.separated ((item :: more).map spelling)) tokens →
      tokens.length < bound → more.length < count →
        Gives (Parser.rounds (separatedRound part) count before) tokens (closing :: rest)
          (before ++ item :: more) := by
  induction more with
  | nil =>
    intro item tokens before count rereads fill short enough
    obtain ⟨count, rfl⟩ := Nat.exists_eq_add_of_lt enough
    rw [List.map_singleton, Slot.separated, List.flatMap_nil, List.append_nil] at fill
    apply Gives.done
    unfold separatedRound
    have behind : BehindPart (closing :: rest) :=
      ⟨closing, rest, rfl, List.mem_cons_of_mem _ closes⟩
    apply (rereads item (by simp) fill short behind).bind_look
    have noComma : closing.kind ∉ [Kind.comma] := by
      revert closes
      generalize closing.kind = kind
      cases kind <;> decide
    exact (Gives.accept_none noComma).look_bind (Gives.pure _)
  | cons next more ih =>
    intro item tokens before count rereads fill short enough
    obtain ⟨count, rfl⟩ := Nat.exists_eq_add_of_lt (Nat.zero_lt_of_lt enough)
    rw [List.map_cons, Slot.separated] at fill
    obtain ⟨own, others, rfl, fillOwn, fillOthers⟩ := fill_append_iff.mp fill
    have behind := behindPart_of_fill fillOthers closing closes rest
    rw [List.map_cons, List.flatMap_cons, List.cons_append, fill_cons_iff] at fillOthers
    obtain ⟨comma, later, rfl, (isComma : comma.kind = .comma), fillLater⟩ := fillOthers
    simp only [List.length_cons, List.length_append] at short enough
    have given : Gives part own ([comma] ++ (later ++ closing :: rest)) item :=
      rereads item (by simp) fillOwn (by omega) behind
    have round : Gives (separatedRound part before) (own ++ [comma]) (later ++ closing :: rest)
        (.again (before ++ [item])) :=
      given.bind <|
        (Gives.accept (by simp [isComma]) (by decide)).token_bind (Gives.pure _)
    have goesOn :=
      ih next later (before ++ [item]) (0 + count)
        (fun other mem => rereads other (List.mem_cons_of_mem _ mem)) fillLater
        (by omega) (by omega)
    rw [List.append_cons own, List.append_cons before]
    exact .again round goesOn

def arrayItem (rules : Productions) : Parser ArrayItem := do
  let mark ← accept? [.spread]
  let value ← rules.expression
  return ⟨value, mark.isSome⟩

theorem arrayItems_eq (rules : Productions) : arrayItems rules =
      Parser.rounds (separatedRound (arrayItem rules)) rules.rounds [] := by
  unfold arrayItems
  congr
  funext items
  simp [separatedRound, arrayItem]

theorem arrayItem_gives (rereads : Rereads clean rules bound) (item : ArrayItem)
    (formed : item.Formed clean) (writable : item.Writable) :
    RereadsPart bound (arrayItem rules) item.spelling item := by
  intro tokens rest fill short behind
  obtain ⟨value, spread⟩ := item
  unfold arrayItem
  cases spread with
  | true =>
    obtain ⟨mark, later, rfl, (isMark : mark.kind = .spread), fill⟩ := fill_cons_iff.mp fill
    rw [List.length_cons] at short
    apply (Gives.accept (by simp [isMark]) (by decide)).token_bind
    have given := rereads.expression ⟨formed, writable, fill⟩ (by omega) behind
    exact given.bind_look (Gives.pure _)
  | false =>
    obtain ⟨more, rfl, start, _⟩ := fill_starts writable fill
    have noMark : value.firstToken.kind ∉ [Kind.spread] := fun isMark => by
      rw [List.mem_singleton] at isMark
      exact absurd (isMark ▸ start) (by decide)
    apply (Gives.accept_none noMark).look_bind
    have given := rereads.expression ⟨formed, writable, fill⟩ short behind
    exact given.bind_look (Gives.pure _)

theorem objectItem_gives (rereads : Rereads clean rules bound) (item : ObjectItem)
    (formed : item.Formed clean) (writable : item.Writable) :
    RereadsPart bound (objectItem rules) item.spelling item := by
  intro tokens rest fill short behind
  unfold objectItem
  cases item with
  | spread value =>
    obtain ⟨mark, later, rfl, (isMark : mark.kind = .spread), fill⟩ := fill_cons_iff.mp fill
    rw [List.length_cons] at short
    apply (Gives.accept (by simp [isMark]) (by decide)).token_bind
    have given := rereads.operand ⟨formed, writable, fill⟩ (by omega) behind
    exact given.bind_look (Gives.pure _)
  | entry key token value =>
    obtain ⟨isKey, rfl, writable⟩ := writable
    obtain ⟨name, behindName, rfl, rfl, fillBehind⟩ := fill_cons_iff.mp fill
    obtain ⟨colon, later, rfl, (isColon : colon.kind = .colon), fillValue⟩ :=
      fill_cons_iff.mp fillBehind
    simp only [List.length_cons] at short
    have noMark : name.kind ∉ [Kind.spread] := fun isMark => by
      rw [List.mem_singleton] at isMark
      exact absurd (isMark ▸ isKey) (by decide)
    apply (Gives.accept_none noMark).look_bind
    apply (Gives.consume isKey (by decide)).token_bind
    apply (Gives.consume (by simp [isColon]) (by decide)).token_bind
    have given := rereads.operand ⟨formed, writable, fillValue⟩ (by omega) behind
    exact given.bind_look (Gives.pure _)

/-- A literal whose items are separated by commas has a round for each of them. -/
theorem literalItems_give {part : Parser α} {spelling : α → List Slot}
    (closes : closing.kind ∈ [Kind.bang, .bracketClose, .parenClose])
    (enough : bound ≤ rules.rounds) {item : α} {more : List α}
    (rereads : ∀ other ∈ item :: more, RereadsPart bound part (spelling other) other)
    (fill : Fill (Slot.separated ((item :: more).map spelling)) tokens)
    (short : tokens.length < bound) :
    Gives (Parser.rounds (separatedRound part) rules.rounds []) tokens (closing :: rest)
      (item :: more) := by
  obtain ⟨own, others, rfl, _, fillOthers⟩ := fill_append_iff.mp fill
  have count := length_le_of_fill fillOthers
  rw [List.length_map] at count
  rw [List.length_append] at short
  exact separatedRounds_give closes more item (own ++ others) [] rules.rounds rereads fill
    (by simpa using short) (by omega)

theorem arrayItem_starts {item : ArrayItem} (writable : item.Writable)
    (fill : Fill item.spelling tokens) :
    ∃ token more, tokens = token :: more ∧ token.kind ≠ .bracketClose := by
  obtain ⟨value, spread⟩ := item
  cases spread with
  | true =>
    obtain ⟨mark, more, rfl, (isMark : mark.kind = .spread), _⟩ := fill_cons_iff.mp fill
    exact ⟨mark, more, rfl, by simp [isMark]⟩
  | false =>
    obtain ⟨more, rfl, start, _⟩ := fill_starts writable fill
    exact ⟨_, more, rfl, (by decide : ∀ kind ∈ Kind.starts, kind ≠ .bracketClose) _ start⟩

theorem array_gives (rereads : Rereads clean rules bound) {items : List ArrayItem}
    (closes : closing.kind = .bracketClose) (formed : ArrayItem.ListFormed clean items)
    (writable : ArrayItem.ListWritable items)
    (fill : Fill (Slot.separated (ArrayItem.listSpelling items)) tokens)
    (short : tokens.length < bound) : Gives (array rules opening) (tokens ++ [closing]) rest
      (.array opening items closing) := by
  have closed : Gives (consume [.bracketClose] .expectedClosingBracket) [closing] rest closing :=
    .consume (by simp [closes]) (by decide)
  unfold array
  cases items with
  | nil =>
    cases fill_nil_iff.mp fill
    apply (Gives.check_true (by simp [closes])).look_bind
    apply (Gives.pure []).look_bind
    exact closed.token_bind (Gives.pure _)
  | cons item more =>
    rw [ArrayItem.listSpelling_eq] at fill
    have parts : ∀ other ∈ item :: more,
        RereadsPart bound (arrayItem rules) other.spelling other := fun other mem =>
      arrayItem_gives rereads other ((ArrayItem.listFormed_iff _).mp formed other mem)
        ((ArrayItem.listWritable_iff _).mp writable other mem)
    have given : Gives (arrayItems rules) tokens (closing :: rest) (item :: more) := by
      rw [arrayItems_eq]
      exact literalItems_give (by simp [closes]) rereads.rounds parts fill short
    obtain ⟨own, others, rfl, fillOwn, _⟩ := fill_append_iff.mp fill
    obtain ⟨token, tail, rfl, noEnd⟩ := arrayItem_starts writable.1 fillOwn
    apply (Gives.check_false (by simpa using noEnd)).look_bind
    exact given.bind (closed.token_bind (Gives.pure _))

theorem startsObject_true {token : Token} (kind : token.kind ∈ [Kind.spread, .parenClose]) :
    Gives startsObject [] (token :: rest) true := by
  unfold startsObject
  apply (Gives.check_true kind).look_bind
  exact .pure true

theorem startsObject_of_key {token next : Token} (isKey : token.kind ∈ keyKinds) :
    Gives startsObject [] (token :: next :: rest) (decide (next.kind = .colon)) := by
  have noEnd : token.kind ∉ [Kind.spread, .parenClose] :=
    (by decide : ∀ kind ∈ keyKinds, kind ∉ [Kind.spread, .parenClose]) _ isKey
  have behind : Gives peekNext [] (token :: next :: rest) next := fun _ _ => rfl
  unfold startsObject
  apply (Gives.check_false noEnd).look_bind
  apply (Gives.check_true isKey).look_bind
  exact behind.look_bind (Gives.pure _)

theorem startsObject_false (writable : expr.Writable) (fill : Fill expr.spelling tokens)
    (behind : BehindPart rest) : Gives startsObject [] (tokens ++ rest) false := by
  obtain ⟨more, rfl, start, noColon⟩ := fill_starts writable fill
  by_cases isKey : expr.firstToken.kind ∈ keyKinds
  · cases more with
    | nil =>
      obtain ⟨token, later, rfl, kind⟩ := behind
      have noColonBehind : token.kind ≠ .colon := fun isColon => by simp [isColon] at kind
      exact decide_eq_false noColonBehind ▸ startsObject_of_key isKey
    | cons second more =>
      exact decide_eq_false (noColon isKey second rfl) ▸ startsObject_of_key isKey
  · have noEnd : expr.firstToken.kind ∉ [Kind.spread, .parenClose] :=
      (by decide : ∀ kind ∈ Kind.starts, kind ∉ [Kind.spread, .parenClose]) _ start
    unfold startsObject
    apply (Gives.check_false noEnd).look_bind
    apply (Gives.check_false isKey).look_bind
    exact .pure false

theorem objectItem_starts {item : ObjectItem} (writable : item.Writable)
    (fill : Fill item.spelling tokens) (rest : List Token) :
    Gives startsObject [] (tokens ++ rest) true ∧
      ∃ token more, tokens = token :: more ∧ token.kind ≠ .parenClose := by
  cases item with
  | spread value =>
    obtain ⟨mark, more, rfl, (isMark : mark.kind = .spread), _⟩ := fill_cons_iff.mp fill
    exact ⟨startsObject_true (by simp [isMark]), mark, more, rfl, by simp [isMark]⟩
  | entry key token value =>
    obtain ⟨isKey, _, _⟩ := writable
    obtain ⟨name, behindName, rfl, rfl, fillBehind⟩ := fill_cons_iff.mp fill
    obtain ⟨colon, later, rfl, (isColon : colon.kind = .colon), _⟩ :=
      fill_cons_iff.mp fillBehind
    refine ⟨decide_eq_true isColon ▸ startsObject_of_key isKey, name, _, rfl, ?_⟩
    exact (by decide : ∀ kind ∈ keyKinds, kind ≠ .parenClose) _ isKey

theorem object_gives (rereads : Rereads clean rules bound) {items : List ObjectItem}
    (closes : closing.kind = .parenClose) (formed : ObjectItem.ListFormed clean items)
    (writable : ObjectItem.ListWritable items)
    (fill : Fill (Slot.separated (ObjectItem.listSpelling items)) tokens)
    (short : tokens.length < bound) :
    Gives (parenthesized rules opening) (tokens ++ [closing]) rest
      (.object opening items closing) := by
  have closed : Gives (consume [.parenClose] .expectedClosingParen) [closing] rest closing :=
    .consume (by simp [closes]) (by decide)
  unfold parenthesized object
  cases items with
  | nil =>
    cases fill_nil_iff.mp fill
    apply (startsObject_true (by simp [closes])).look_bind
    apply (Gives.check_true (by simp [closes])).look_bind
    apply (Gives.pure []).look_bind
    exact closed.token_bind (Gives.pure _)
  | cons item more =>
    rw [ObjectItem.listSpelling_eq] at fill
    have parts : ∀ other ∈ item :: more,
        RereadsPart bound (objectItem rules) other.spelling other := fun other mem =>
      objectItem_gives rereads other ((ObjectItem.listFormed_iff _).mp formed other mem)
        ((ObjectItem.listWritable_iff _).mp writable other mem)
    have given : Gives (objectItems rules) tokens (closing :: rest) (item :: more) :=
      literalItems_give (by simp [closes]) rereads.rounds parts fill short
    obtain ⟨own, others, rfl, fillOwn, _⟩ := fill_append_iff.mp fill
    obtain ⟨starts, token, tail, rfl, noEnd⟩ :=
      objectItem_starts writable.1 fillOwn (others ++ [closing] ++ rest)
    apply Gives.look_bind (by simpa using starts)
    apply (Gives.check_false (by simpa using noEnd)).look_bind
    exact given.bind (closed.token_bind (Gives.pure _))

theorem grouping_gives (rereads : Rereads clean rules bound) {inner : Expr}
    (closes : closing.kind = .parenClose) (writes : Writes clean inner tokens)
    (short : tokens.length < bound) :
    Gives (parenthesized rules opening) (tokens ++ [closing]) rest
      (.grouping inner opening closing) := by
  have behind : BehindPart (closing :: rest) := ⟨closing, rest, rfl, by simp [closes]⟩
  unfold parenthesized
  apply Gives.look_bind (by simpa using startsObject_false writes.writable writes.fill behind)
  apply (rereads.operand writes short behind).bind
  exact (Gives.consume (by simp [closes]) (by decide)).token_bind (Gives.pure _)

end Grammar

end ArrowScript

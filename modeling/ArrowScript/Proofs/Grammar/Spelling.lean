import ArrowScript.Grammar.Expression
import ArrowScript.Proofs.Tree.Form
import Mathlib.Data.List.Forall2

namespace ArrowScript

/-!
# How expressions are written

The tokens of an expression in the order of the text are the tokens that its
nodes keep and, between them, marks of which the tree keeps nothing: commas,
colons, `::`, dots in front of spread items, and the `!` that closes the
arguments of a call.  A list of tokens spells an expression when it has the kept
tokens in their places and any token of the right kind in the place of a mark.
-/

/-- A place in the text of an expression. -/
inductive Slot
  /-- The place of a token that the tree keeps. -/
  | kept (token : Token)
  /-- The place of any token of a kind. -/
  | mark (kind : Kind)

/-- The kind of the tokens that can stand in a place. -/
def Slot.kind : Slot → Kind
  | .kept token => token.kind
  | .mark kind => kind

/-- A token fits a slot. -/
def Slot.Holds : Slot → Token → Prop
  | .kept token, other => other = token
  | .mark kind, other => other.kind = kind

theorem Slot.Holds.kind_eq {slot : Slot} {token : Token} (holds : slot.Holds token) :
    token.kind = slot.kind := by
  cases slot with
  | kept other => exact congrArg Token.kind holds
  | mark kind => exact holds

def Slot.separated : List (List Slot) → List Slot
  | [] => []
  | first :: rest => first ++ rest.flatMap (.mark .comma :: ·)

/-- Kinds of tokens that are constants on their own. -/
def Kind.constants : List Kind :=
  [.kwTrue, .kwFalse, .kwNull, .number, .string]

mutual

/-- The places in the text of an expression, in order; every call is closed by `!`. -/
def Expr.spelling : Expr → List Slot
  | .binary op left right => left.spelling ++ .kept op :: right.spelling
  | .unary op operand => .kept op :: operand.spelling
  | .literal _ token => [.kept token]
  | .grouping inner opening closing => .kept opening :: (inner.spelling ++ [.kept closing])
  | .reference name => [.kept name]
  | .call callee args =>
    callee.spelling ++ (Slot.separated (Expr.listSpelling args) ++ [.mark .bang])
  | .context token => [.kept token]
  | .array opening items closing =>
    .kept opening :: (Slot.separated (ArrayItem.listSpelling items) ++ [.kept closing])
  | .object opening items closing =>
    .kept opening :: (Slot.separated (ObjectItem.listSpelling items) ++ [.kept closing])
  | .element base pos opening closing =>
    base.spelling ++ .kept opening :: (pos.spelling ++ [.kept closing])
  | .groupMember group name => group.spelling ++ [.mark .member, .kept name]
  | .groupName name => [.kept name]
  | .functionName name => [.kept name]
  | _ => []

/-- The places in the texts of several expressions. -/
def Expr.listSpelling : List Expr → List (List Slot)
  | [] => []
  | expr :: rest => expr.spelling :: Expr.listSpelling rest

/-- The places in the text of an item of an array literal. -/
def ArrayItem.spelling : ArrayItem → List Slot
  | ⟨value, true⟩ => .mark .spread :: value.spelling
  | ⟨value, false⟩ => value.spelling

/-- The places in the texts of the items of an array literal. -/
def ArrayItem.listSpelling : List ArrayItem → List (List Slot)
  | [] => []
  | item :: rest => item.spelling :: ArrayItem.listSpelling rest

/-- The places in the text of an item of an object literal. -/
def ObjectItem.spelling : ObjectItem → List Slot
  | .entry _ token value => .kept token :: .mark .colon :: value.spelling
  | .spread value => .mark .spread :: value.spelling

/-- The places in the texts of the items of an object literal. -/
def ObjectItem.listSpelling : List ObjectItem → List (List Slot)
  | [] => []
  | item :: rest => item.spelling :: ObjectItem.listSpelling rest

end

theorem Expr.listSpelling_eq (parts : List Expr) :
    Expr.listSpelling parts = parts.map Expr.spelling := by
  induction parts with
  | nil => rfl
  | cons part rest ih => rw [Expr.listSpelling, ih, List.map_cons]

theorem ArrayItem.listSpelling_eq (items : List ArrayItem) :
    ArrayItem.listSpelling items = items.map ArrayItem.spelling := by
  induction items with
  | nil => rfl
  | cons item rest ih =>
    rw [ArrayItem.listSpelling, ih, List.map_cons]

theorem ObjectItem.listSpelling_eq (items : List ObjectItem) :
    ObjectItem.listSpelling items = items.map ObjectItem.spelling := by
  induction items with
  | nil => rfl
  | cons item rest ih =>
    rw [ObjectItem.listSpelling, ih, List.map_cons]

mutual

/--
An expression of constants, names, `@`, groupings, operators, accesses, calls and
literals keeps tokens of the kinds, and constants of the values, that its nodes
need.  No first argument of a call starts with `!` or a token that ends arguments.
-/
def Expr.Writable : Expr → Prop
  | .binary op left right =>
    op.kind.level ≠ 0 ∧ left.Writable ∧ right.Writable
  | .unary op operand => op.kind ∈ [.bang, .minus] ∧ operand.Writable
  | .literal value token => token.kind ∈ Kind.constants ∧ value = Grammar.constantOf token
  | .grouping inner opening closing =>
    opening.kind = .parenOpen ∧ closing.kind = .parenClose ∧ inner.Writable
  | .reference name => name.kind = .identifier
  | .call callee args =>
    callee.Writable ∧ Expr.ListWritable args ∧
      ∀ first ∈ args.head?, first.firstToken.kind ∉ .bang :: Grammar.argumentEnds
  | .context token => token.kind = .atSign
  | .array opening items closing =>
    opening.kind = .bracketOpen ∧ closing.kind = .bracketClose ∧ ArrayItem.ListWritable items
  | .object opening items closing =>
    opening.kind = .parenOpen ∧ closing.kind = .parenClose ∧ ObjectItem.ListWritable items
  | .element base pos opening closing =>
    opening.kind = .bracketOpen ∧ closing.kind = .bracketClose ∧
      base.Writable ∧ pos.Writable
  | .groupMember group name => name.kind ∈ [.identifier, .command] ∧ group.Writable
  | .groupName name => name.kind = .identifier
  | .functionName name => name.kind = .command
  | _ => False

/-- Several expressions that can be written. -/
def Expr.ListWritable : List Expr → Prop
  | [] => True
  | expr :: rest => expr.Writable ∧ Expr.ListWritable rest

/-- An item of an array literal that can be written. -/
def ArrayItem.Writable : ArrayItem → Prop
  | ⟨value, _⟩ => value.Writable

/-- Items of an array literal that can be written. -/
def ArrayItem.ListWritable : List ArrayItem → Prop
  | [] => True
  | item :: rest => item.Writable ∧ ArrayItem.ListWritable rest

/-- An item of an object literal that can be written. -/
def ObjectItem.Writable : ObjectItem → Prop
  | .entry key token value =>
    token.kind ∈ Grammar.keyKinds ∧ key = Grammar.keyOf token ∧ value.Writable
  | .spread value => value.Writable

/-- Items of an object literal that can be written. -/
def ObjectItem.ListWritable : List ObjectItem → Prop
  | [] => True
  | item :: rest => item.Writable ∧ ObjectItem.ListWritable rest

end

theorem ArrayItem.listWritable_iff (items : List ArrayItem) :
    ArrayItem.ListWritable items ↔ ∀ item ∈ items, item.Writable := by
  induction items with
  | nil => simp [ArrayItem.ListWritable]
  | cons item rest ih =>
    rw [ArrayItem.ListWritable, ih, List.forall_mem_cons]

theorem ObjectItem.listWritable_iff (items : List ObjectItem) :
    ObjectItem.ListWritable items ↔ ∀ item ∈ items, item.Writable := by
  induction items with
  | nil => simp [ObjectItem.ListWritable]
  | cons item rest ih =>
    rw [ObjectItem.ListWritable, ih, List.forall_mem_cons]

/-- Tokens stand in places one after another. -/
abbrev Fill (slots : List Slot) (tokens : List Token) : Prop :=
  List.Forall₂ Slot.Holds slots tokens

variable {tokens : List Token} {slots : List Slot} {token : Token}

theorem fill_nil_iff : Fill [] tokens ↔ tokens = [] :=
  List.forall₂_nil_left_iff

theorem fill_cons_iff {slot : Slot} : Fill (slot :: slots) tokens ↔
      ∃ token more, tokens = token :: more ∧ slot.Holds token ∧ Fill slots more := by
  constructor
  · intro fill
    cases fill with
    | cons holds fillMore => exact ⟨_, _, rfl, holds, fillMore⟩
  · rintro ⟨token, more, rfl, holds, fillMore⟩
    exact .cons holds fillMore

theorem fill_append_iff {front back : List Slot} : Fill (front ++ back) tokens ↔
      ∃ inFront inBack, tokens = inFront ++ inBack ∧ Fill front inFront ∧
        Fill back inBack := by
  constructor
  · intro fill
    refine ⟨tokens.take front.length, tokens.drop front.length, by simp, ?_, ?_⟩
    · simpa using List.forall₂_take front.length fill
    · simpa using List.forall₂_drop front.length fill
  · rintro ⟨inFront, inBack, rfl, fillFront, fillBack⟩
    exact List.rel_append fillFront fillBack

theorem fill_kept (fill : Fill [.kept token] tokens) : tokens = [token] := by
  obtain ⟨first, more, rfl, rfl, fillMore⟩ := fill_cons_iff.mp fill
  rw [fill_nil_iff.mp fillMore]

theorem fill_concat {slot : Slot} (fill : Fill (slots ++ [slot]) tokens) :
    ∃ own last, tokens = own ++ [last] ∧ slot.Holds last ∧ Fill slots own := by
  obtain ⟨own, behind, rfl, fillOwn, fillBehind⟩ := fill_append_iff.mp fill
  obtain ⟨last, more, rfl, holds, fillMore⟩ := fill_cons_iff.mp fillBehind
  cases fill_nil_iff.mp fillMore
  exact ⟨own, last, rfl, holds, fillOwn⟩

theorem fill_enclosed {opening closing : Token}
    (fill : Fill (.kept opening :: (slots ++ [.kept closing])) tokens) :
    ∃ own, tokens = opening :: (own ++ [closing]) ∧ Fill slots own := by
  obtain ⟨first, more, rfl, rfl, fillMore⟩ := fill_cons_iff.mp fill
  obtain ⟨own, last, rfl, rfl, fillOwn⟩ := fill_concat fillMore
  exact ⟨own, rfl, fillOwn⟩

/-- Kinds of tokens that the text of an expression can start with. -/
def Kind.starts : List Kind :=
  [.kwTrue, .kwFalse, .kwNull, .number, .string, .identifier, .atSign, .command, .bracketOpen,
   .parenOpen, .bang, .minus]

/--
Places start like an expression: with the given token, behind which no colon
stands when it could be the key of an object item.
-/
structure StartsWith (token : Token) (slots : List Slot) : Prop where
  kept : ∃ more, slots = .kept token :: more ∧
    (token.kind ∈ Grammar.keyKinds → ∀ slot ∈ more.head?, slot.kind ≠ .colon)
  kind : token.kind ∈ Kind.starts

/-- Places behind an expression whose first is no colon do not change how it starts. -/
theorem StartsWith.append (start : StartsWith token slots) (slot : Slot) (later : List Slot)
    (noColon : slot.kind ≠ .colon) : StartsWith token (slots ++ slot :: later) := by
  obtain ⟨⟨more, rfl, colon⟩, kind⟩ := start
  refine ⟨⟨more ++ slot :: later, rfl, ?_⟩, kind⟩
  cases more with
  | nil =>
    intro _ other isSlot
    cases isSlot
    exact noColon
  | cons next more => exact colon

variable {clean : Prop}

theorem Expr.level_of_role {role : Role} (expr : Expr) (formed : expr.Formed clean role)
    (other : role ≠ .value) : expr.level = 8 := by
  cases expr with
  | binary => exact absurd formed.1 other
  | unary => exact absurd formed.1 other
  | _ => rfl

theorem StartsWith.single (kind : token.kind ∈ Kind.starts) : StartsWith token [.kept token] :=
  ⟨⟨[], rfl, fun _ _ isSlot => by cases isSlot⟩, kind⟩

/-- A token that is no key of an object item starts like an expression, whatever is behind it. -/
theorem StartsWith.noKey (kind : token.kind ∈ Kind.starts)
    (noKey : token.kind ∉ Grammar.keyKinds)
    (more : List Slot) : StartsWith token (.kept token :: more) :=
  ⟨⟨more, rfl, fun isKey => absurd isKey noKey⟩, kind⟩

/-- The text of an expression starts with the token that names its place. -/
theorem Expr.startsWith : (expr : Expr) → expr.Writable →
    StartsWith expr.firstToken expr.spelling
  | .binary op left right, ⟨isOperator, writable, _⟩ => by
      refine (startsWith left writable).append _ _ ?_
      rintro isColon
      rw [Slot.kind] at isColon
      exact isOperator (by rw [isColon]; rfl)
  | .unary op operand, ⟨isOperator, _⟩ =>
    .noKey
      ((by decide : ∀ kind ∈ [Kind.bang, .minus], kind ∈ Kind.starts) _ isOperator)
      ((by decide : ∀ kind ∈ [Kind.bang, .minus], kind ∉ Grammar.keyKinds) _ isOperator) _
  | .literal value token, ⟨isConstant, _⟩ =>
    .single ((by decide : ∀ kind ∈ Kind.constants, kind ∈ Kind.starts) _ isConstant)
  | .grouping inner opening closing, ⟨opens, _⟩ =>
    .noKey (opens ▸ by decide) (opens ▸ by decide) _
  | .reference name, isName => .single (isName ▸ by decide)
  | .call callee [], ⟨writable, _⟩ => (startsWith callee writable).append _ _ nofun
  | .call callee (first :: rest), ⟨writable, ⟨writableFirst, _⟩, _⟩ => by
      -- The first argument starts right behind the callee.
      obtain ⟨⟨more, isStart, _⟩, kind⟩ := startsWith first writableFirst
      have behind : Slot.separated (Expr.listSpelling (first :: rest)) ++ [.mark .bang] =
          .kept first.firstToken ::
            (more ++ (Expr.listSpelling rest).flatMap (.mark .comma :: ·) ++ [.mark .bang]) := by
        simp [Expr.listSpelling, Slot.separated, isStart]
      rw [Expr.spelling, behind]
      refine (startsWith callee writable).append _ _ ?_
      exact (by decide : ∀ kind ∈ Kind.starts, kind ≠ .colon) _ kind
  | .context token, isContext => .single (isContext ▸ by decide)
  | .array opening items closing, ⟨opens, _⟩ =>
    .noKey (opens ▸ by decide) (opens ▸ by decide) _
  | .object opening items closing, ⟨opens, _⟩ =>
    .noKey (opens ▸ by decide) (opens ▸ by decide) _
  | .element base pos opening closing, ⟨opens, _, writable, _⟩ => by
      exact (startsWith base writable).append _ _ (by simp [Slot.kind, opens])
  | .groupMember group name, ⟨_, writable⟩ => (startsWith group writable).append _ _ nofun
  | .groupName name, isName => .single (isName ▸ by decide)
  | .functionName name, isName => .single (isName ▸ by decide)
  | .declaration _ _, writable => writable.elim
  | .assign _ _, writable => writable.elim
  | .choice _ _ _ _ _, writable => writable.elim
  | .block _, writable => writable.elim
  | .push _ _ _, writable => writable.elim
  | .interpolation _ _ _, writable => writable.elim

theorem Expr.firstToken_kind_of_level {role : Role} :
    (expr : Expr) → expr.Formed clean role → expr.Writable → expr.level = 8 →
      expr.firstToken.kind ∉ [Kind.bang, .minus]
  | .binary op _ _, _, _, level => by
      have := op.kind.level_le
      exact absurd level (by rw [Expr.level]; omega)
  | .unary _ _, _, _, level => absurd level (show 7 ≠ 8 by decide)
  | .literal _ _, _, ⟨isConstant, _⟩, _ =>
    (by decide : ∀ kind ∈ Kind.constants, kind ∉ [Kind.bang, .minus]) _ isConstant
  | .grouping _ _ _, _, ⟨opens, _⟩, _ => opens ▸ by decide
  | .reference _, _, isName, _ => isName ▸ by decide
  | .call callee _, ⟨_, formed, _⟩, ⟨writable, _⟩, _ =>
    firstToken_kind_of_level callee formed writable (callee.level_of_role formed nofun)
  | .context _, _, isContext, _ => isContext ▸ by decide
  | .array _ _ _, _, ⟨opens, _⟩, _ => opens ▸ by decide
  | .object _ _ _, _, ⟨opens, _⟩, _ => opens ▸ by decide
  | .element base _ _ _, ⟨_, level, formed, _⟩, ⟨_, _, writable, _⟩, _ =>
    firstToken_kind_of_level base formed writable level
  | .groupMember group _, ⟨_, level, formed⟩, ⟨_, writable⟩, _ =>
    firstToken_kind_of_level group formed writable level
  | .groupName _, _, isName, _ => isName ▸ by decide
  | .functionName _, _, isName, _ => isName ▸ by decide
  | .declaration _ _, _, writable, _ => writable.elim
  | .assign _ _, _, writable, _ => writable.elim
  | .choice _ _ _ _ _, _, writable, _ => writable.elim
  | .block _, _, writable, _ => writable.elim
  | .push _ _ _, _, writable, _ => writable.elim
  | .interpolation _ _ _, _, writable, _ => writable.elim

end ArrowScript

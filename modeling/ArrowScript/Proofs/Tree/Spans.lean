import ArrowScript.Proofs.Grammar.Totality
import ArrowScript.Proofs.Token.Placement
import ArrowScript.Tree.Node
import Mathlib.Data.List.Flatten
import Mathlib.Logic.Relation

namespace ArrowScript

/-!
# Spans of nodes

A node starts at its first token and stops behind the last one of its contents.
The first token is the first one of the contents too, except for a block that
was read from `value -> break`: it starts at the arrow, behind the value.  The
`span` of a node is what its contents hold from its first token on.

The contents of the nodes below a node stand in its contents, one behind the
other.  The tokens of a script stand apart, so the spans of nodes nest.
-/

open scoped List

/-- The contents of a block from its opening token on. -/
def Block.span (block : Block) : List Token :=
  if block.isBreak then block.opening :: closed block.closing
    (Stmt.listContents block.statements.tail)
  else block.contents

/-- The contents of an expression from its first token on. -/
def Expr.span : Expr → List Token
  | .binary op left right => left.span ++ op :: right.contents
  | .assign target value => value.span ++ target.contents
  | .call callee args => callee.span ++ Expr.listContents args
  | .element base pos opening closing =>
    base.span ++ opening :: (pos.contents ++ [closing])
  | .push target value closing => value.span ++ [target, closing]
  | .groupMember group name => group.span ++ [name]
  | .block body => body.span
  | expr => expr.contents

namespace Node

def contents : Node → List Token
  | .expr inner => inner.contents
  | .stmt inner => inner.contents

/-- The contents of a node from its first token on. -/
def span : Node → List Token
  | .expr inner => inner.span
  | .stmt (.expression value) => value.span
  | .stmt inner => inner.contents

/-- The nodes directly below a node in the order in which a script writes them. -/
def written : Node → List Node
  | .expr (.assign target value) => [.expr value, .expr target]
  | node => node.children

/-- A block read from `value -> break`, and the statement of its value. -/
def LeavesWith (node child : Node) : Prop :=
  ∃ arrow value keyword,
    arrow.kind = .arrow ∧
      node = .expr (.block ⟨arrow, [.expression value, .leave keyword], keyword⟩) ∧
      child = .stmt (.expression value)

theorem written_perm (node : Node) : node.written.Perm node.children := by
  unfold written
  split
  · exact .swap _ _ _
  · exact .refl _

end Node

theorem getLast?_closed (closing : Token) (inner : List Token) :
    (closed closing inner).getLast? = some closing := by
  unfold closed
  split
  · assumption
  · exact List.getLast?_concat

/-- The contents of a block in front of its opening token. -/
theorem Block.span_suffix (block : Block) : block.span <:+ block.contents := by
  obtain ⟨opening, stmts, closing⟩ := block
  unfold span
  split
  · cases stmts with
    | nil => contradiction
    | cons first rest =>
      rw [Block.contents, if_pos ‹_›]
      exact List.suffix_append _ _
  · exact List.suffix_refl _

theorem Block.head?_span (block : Block) : block.span.head? = some block.opening := by
  obtain ⟨opening, stmts, closing⟩ := block
  unfold span
  split
  · rfl
  · cases stmts with
    | nil => rfl
    | cons first rest =>
      rw [Block.contents, if_neg ‹_›]
      rfl

theorem Block.getLast?_contents (block : Block) : block.contents.getLast? = some block.closing := by
  obtain ⟨opening, stmts, closing⟩ := block
  cases stmts with
  | nil => rfl
  | cons first rest =>
    rw [Block.contents]
    split <;> simp [List.getLast?_append, List.getLast?_cons, getLast?_closed]

theorem Expr.head?_span (expr : Expr) : expr.span.head? = some expr.firstToken := by
  cases expr with
  | binary _ first _ | assign _ first | call first _ | element first _ _ _ | push _ first _
  | groupMember first _ =>
    simp [span, firstToken, first.head?_span]
  | block body => exact body.head?_span
  | _ => rfl
termination_by structural expr

theorem suffix_append {span contents : List Token} (suffix : span <:+ contents)
    (later : List Token) : span ++ later <:+ contents ++ later := by
  obtain ⟨ahead, rfl⟩ := suffix
  exact ⟨ahead, (List.append_assoc _ _ _).symm⟩

theorem Expr.span_suffix (expr : Expr) : expr.span <:+ expr.contents := by
  cases expr with
  | binary _ first _ | assign _ first | call first _ | element first _ _ _ | push _ first _
  | groupMember first _ =>
    exact suffix_append first.span_suffix _
  | block body => exact body.span_suffix
  | _ => exact List.suffix_refl _
termination_by structural expr

/-- The last token of a list stops at an offset. -/
def EndsAt (stop : Nat) (tokens : List Token) : Prop :=
  ∃ last, tokens.getLast? = some last ∧ last.stop = stop

namespace EndsAt

variable {stop : Nat} {tokens : List Token}

theorem singleton (token : Token) : EndsAt token.stop [token] :=
  ⟨token, rfl, rfl⟩

theorem append (ends : EndsAt stop tokens) (ahead : List Token) :
    EndsAt stop (ahead ++ tokens) := by
  obtain ⟨last, isLast, stops⟩ := ends
  exact ⟨last, by simp [List.getLast?_append, isLast], stops⟩

theorem cons (ends : EndsAt stop tokens) (first : Token) : EndsAt stop (first :: tokens) :=
  ends.append [first]

theorem enclosed (opening : Token) (inner : List Token) (closing : Token) :
    EndsAt closing.stop (opening :: (inner ++ [closing])) :=
  ((singleton closing).append inner).cons opening

theorem block (body : Block) : EndsAt body.closing.stop body.contents :=
  ⟨body.closing, body.getLast?_contents, rfl⟩

end EndsAt

mutual

theorem Expr.contents_endsAt : (expr : Expr) → EndsAt expr.stop expr.contents
  | .binary op left right => (right.contents_endsAt.cons op).append left.contents
  | .unary op operand => operand.contents_endsAt.cons op
  | .grouping inner opening closing => .enclosed opening inner.contents closing
  | .declaration keyword name => (EndsAt.singleton name).cons keyword
  | .assign target value => target.contents_endsAt.append value.contents
  | .call callee args =>
    Expr.listContents_endsAt args fun _ => callee.contents_endsAt
  | .choice keyword subject arms otherwise closing => by
    have ends := EndsAt.enclosed keyword
      (subject.contents ++ (Arm.listContents arms ++ Block.optionContents otherwise)) closing
    simpa [Expr.stop] using ends
  | .block body => .block body
  | .array opening items closing => .enclosed opening (ArrayItem.listContents items) closing
  | .object opening items closing => .enclosed opening (ObjectItem.listContents items) closing
  | .element base pos opening closing =>
    (EndsAt.enclosed opening pos.contents closing).append base.contents
  | .push target value closing => ((EndsAt.singleton closing).cons target).append value.contents
  | .interpolation opening parts closing => .enclosed opening (Expr.listContents parts) closing
  | .groupMember group name => (EndsAt.singleton name).append group.contents
  | .literal _ token | .reference token | .context token | .groupName token
  | .functionName token => .singleton token

/-- Several expressions behind tokens stop where the last of them does. -/
theorem Expr.listContents_endsAt {default : Nat} {ahead : List Token} : (parts : List Expr) →
      (parts = [] → EndsAt default ahead) →
      EndsAt (Expr.lastStop default parts) (ahead ++ Expr.listContents parts)
  | [], ends => by simpa [Expr.lastStop, Expr.listContents] using ends rfl
  | [last], _ => by simpa [Expr.lastStop, Expr.listContents] using last.contents_endsAt.append ahead
  | first :: second :: rest, _ => by
    have ends : EndsAt (Expr.lastStop default (second :: rest))
        (ahead ++ first.contents ++ Expr.listContents (second :: rest)) :=
      Expr.listContents_endsAt (second :: rest) (by simp)
    rwa [List.append_assoc] at ends

end

theorem Stmt.contents_endsAt : (stmt : Stmt) → EndsAt stmt.stop stmt.contents
  | .expression value => value.contents_endsAt
  | .conditional keyword branches (some otherwise) =>
    ((EndsAt.block otherwise).append (Arm.listContents branches)).cons keyword
  | .conditional keyword branches none => by
    rcases List.eq_nil_or_concat branches with rfl | ⟨front, ⟨condition, body⟩, rfl⟩
    · exact .singleton keyword
    · have ends := (((EndsAt.block body).append condition.contents).append
        (front.flatMap Arm.contents)).cons keyword
      simpa [Stmt.stop] using ends
  | .loop keyword condition body => ((EndsAt.block body).append condition.contents).cons keyword
  | .each keyword item collection body =>
    (((EndsAt.block body).append collection.contents).cons item).cons keyword
  | .function keyword name params body =>
    (((EndsAt.block body).append params).cons name).cons keyword
  | .leave keyword => .singleton keyword
  | .use keyword path => (EndsAt.singleton path).cons keyword
  | .group keyword name body => ((EndsAt.block body).cons name).cons keyword
  | .exported keyword declaration => declaration.contents_endsAt.cons keyword

namespace Node

theorem contents_endsAt : (node : Node) → EndsAt node.stop node.contents
  | .expr inner => inner.contents_endsAt
  | .stmt inner => inner.contents_endsAt

theorem head?_span : (node : Node) → node.span.head? = some node.firstToken
  | .expr inner => inner.head?_span
  | .stmt inner => by
    cases inner with
    | expression value => exact value.head?_span
    | _ => rfl

theorem span_suffix : (node : Node) → node.span <:+ node.contents
  | .expr inner => inner.span_suffix
  | .stmt inner => by
    cases inner with
    | expression value => exact value.span_suffix
    | _ => exact List.suffix_refl _

/-- A node starts and stops at tokens of its span. -/
theorem exists_span_ends (node : Node) : ∃ last rest,
      node.span = node.firstToken :: rest ∧ node.span.getLast? = some last ∧
        last.stop = node.stop := by
  obtain ⟨rest, shape⟩ := List.head?_eq_some_iff.mp node.head?_span
  obtain ⟨last, isLast, stops⟩ := node.contents_endsAt
  obtain ⟨ahead, whole⟩ := node.span_suffix
  refine ⟨last, rest, shape, ?_, stops⟩
  rw [← whole] at isLast
  simpa [List.getLast?_append, List.getLast?_cons, shape] using isLast

/-- A node whose children do not all stand behind its first token. -/
def isBreak : Node → Bool
  | .expr (.block body) => body.isBreak
  | _ => false

theorem flatMap_span_sublist (nodes : List Node) : nodes.flatMap span <+ nodes.flatMap contents :=
  List.Sublist.flatMap_right nodes fun node _ => node.span_suffix.sublist

theorem contents_arm (arm : Arm) : arm.nodes.flatMap contents = arm.contents := by
  cases arm
  simp [Arm.nodes, contents]

theorem contents_otherwise (otherwise : Option Block) :
    (Block.optionNodes otherwise).flatMap contents = Block.optionContents otherwise := by
  cases otherwise <;> simp [Block.optionNodes, contents]

theorem contents_item (item : ObjectItem) : item.nodes.flatMap contents = item.contents := by
  cases item <;> simp [ObjectItem.nodes, contents]

theorem contents_arrayItem (item : ArrayItem) : item.value.contents = item.contents := by
  cases item
  simp

attribute [local simp] written children span contents Expr.children Stmt.children Expr.span
  List.flatMap_map List.flatMap_assoc contents_arm contents_otherwise contents_item
  contents_arrayItem

/-- The contents of the nodes below a node stand in its contents, one behind the other. -/
theorem written_contents_sublist (node : Node) :
    node.written.flatMap contents <+ node.contents := by
  cases node with
  | expr expr =>
    cases expr with
    | block body => simpa using body.statements_sublist
    | _ => simp
  | stmt statement =>
    cases statement with
    | function keyword name params body =>
      simpa using ((List.sublist_append_right params body.contents).cons name).cons keyword
    | _ => simp

theorem written_span_sublist {node : Node} (ordered : node.isBreak = false) :
    node.written.flatMap span <+ node.span := by
  -- Where a node starts with a token of its own, its span is all of its contents.
  have whole (same : node.span = node.contents) : node.written.flatMap span <+ node.span :=
    same ▸ (flatMap_span_sublist _).trans node.written_contents_sublist
  cases node with
  | expr expr =>
    cases expr with
    | binary op left right => simpa using right.span_suffix.sublist.cons op
    | assign target value => simpa using target.span_suffix.sublist
    | call callee args => simpa using flatMap_span_sublist (args.map .expr)
    | element base pos opening closing =>
      have inside := pos.span_suffix.sublist.trans (List.sublist_append_left _ [closing])
      simpa using inside.cons opening
    | push target value closing => simp
    | groupMember group name => simp
    | block body => exact whole (if_neg (Bool.eq_false_iff.mp ordered))
    | _ => exact whole rfl
  | stmt statement =>
    cases statement with
    | expression value => simp
    | _ => exact whole rfl

/-- A block read from `value -> break` holds its value in front of its span. -/
theorem eq_of_isBreak {node : Node} (isBreak : node.isBreak = true) :
    ∃ arrow value keyword, arrow.kind = .arrow ∧
      node = .expr (.block ⟨arrow, [.expression value, .leave keyword], keyword⟩) := by
  unfold Node.isBreak at isBreak
  split at isBreak
  · unfold Block.isBreak at isBreak
    split at isBreak
    · obtain ⟨isArrow, rfl⟩ : _ ∧ _ := by simpa using isBreak
      exact ⟨_, _, _, isArrow, rfl⟩
    · cases isBreak
  · cases isBreak

theorem contents_sublist {node child : Node} (isChild : child ∈ node.children) :
    child.contents <+ node.contents := by
  have isWritten : child ∈ node.written := node.written_perm.mem_iff.mpr isChild
  exact (List.sublist_flatten_of_mem (List.mem_map_of_mem isWritten)).trans
    node.written_contents_sublist

/-- A child holds tokens of the span of its parent, unless it is the value of a `break`. -/
theorem span_subset {node child : Node} (isChild : child ∈ node.children)
    (inside : ¬ node.LeavesWith child) : child.span ⊆ node.span := by
  cases isBreak : node.isBreak with
  | false =>
    have isWritten : child ∈ node.written := node.written_perm.mem_iff.mpr isChild
    exact ((List.sublist_flatten_of_mem (List.mem_map_of_mem isWritten)).trans
      (written_span_sublist isBreak)).subset
  | true =>
    obtain ⟨arrow, value, keyword, isArrow, rfl⟩ := eq_of_isBreak isBreak
    obtain rfl | rfl : child = .stmt (.expression value) ∨ child = .stmt (.leave keyword) := by
      simpa using isChild
    · exact (inside ⟨arrow, value, keyword, isArrow, rfl, rfl⟩).elim
    · simp [Block.span, Block.isBreak, isArrow, closed]

/-- The span of a node holds the span of another one. -/
def Encloses (outer inner : Node) : Prop :=
  outer.start ≤ inner.start ∧ inner.stop ≤ outer.stop

section

variable
  {node : Node}
  (apart : node.contents.Pairwise fun first second => first.stop ≤ second.start.offset)

include apart

/-- The tokens of a span stand between its ends. -/
theorem span_bounds {token : Token} (mem : token ∈ node.span) :
    node.start ≤ token.start.offset ∧ token.stop ≤ node.stop := by
  obtain ⟨last, rest, starts, isLast, stops⟩ := node.exists_span_ends
  obtain ⟨front, ends⟩ := List.getLast?_eq_some_iff.mp isLast
  have inside := apart.sublist node.span_suffix.sublist
  constructor
  · rw [starts] at inside mem
    rcases List.mem_cons.mp mem with rfl | later
    · exact Nat.le_refl _
    · have behind := List.rel_of_pairwise_cons inside later
      exact Nat.le_trans (Nat.le_add_right _ _) behind
  · rw [ends] at inside mem
    rw [← stops]
    rcases List.mem_append.mp mem with earlier | isLast
    · have ahead := (List.pairwise_append.mp inside).2.2 token earlier last (by simp)
      exact Nat.le_trans ahead (Nat.le_add_right _ _)
    · exact Nat.le_of_eq (congrArg Token.stop (List.mem_singleton.mp isLast))

theorem start_le_stop : node.start ≤ node.stop := by
  have bounds := span_bounds apart (List.mem_of_mem_head? node.head?_span)
  exact Nat.le_trans (Nat.le_add_right _ _) bounds.2

theorem encloses_of_subset {inner : Node} (inside : inner.span ⊆ node.span) :
    node.Encloses inner := by
  obtain ⟨last, rest, starts, isLast, stops⟩ := inner.exists_span_ends
  have atStart := span_bounds apart (inside (List.mem_of_mem_head? inner.head?_span))
  have atStop := span_bounds apart (inside (List.mem_of_mem_getLast? isLast))
  exact ⟨atStart.1, stops ▸ atStop.2⟩

theorem written_apart : node.written.Pairwise fun earlier later =>
    earlier.stop ≤ later.start := by
  have across := (List.pairwise_flatMap.mp (apart.sublist node.written_contents_sublist)).2
  apply across.imp
  intro earlier later separate
  obtain ⟨last, isLast, stops⟩ := earlier.contents_endsAt
  rw [← stops]
  apply separate last (List.mem_of_mem_getLast? isLast)
  exact later.span_suffix.subset (List.mem_of_mem_head? later.head?_span)

theorem stop_le_of_leavesWith {child : Node} (leaves : node.LeavesWith child) :
    child.stop ≤ node.start := by
  obtain ⟨arrow, value, keyword, isArrow, rfl, rfl⟩ := leaves
  obtain ⟨last, isLast, stops⟩ := value.contents_endsAt
  simp only [contents, Expr.contents, Block.contents_break value keyword isArrow] at apart
  have ahead := (List.pairwise_append.mp apart).2.2
  show value.stop ≤ arrow.start.offset
  rw [← stops]
  exact ahead last (List.mem_of_mem_getLast? isLast) arrow (by simp)

end

/-- A node that stands in a tree. -/
def StandsIn (node tree : Node) : Prop :=
  Relation.ReflTransGen (fun outer inner : Node => inner ∈ outer.children) tree node

theorem StandsIn.contents_sublist {node tree : Node} (stands : node.StandsIn tree) :
    node.contents <+ tree.contents := by
  induction stands with
  | refl => exact List.Sublist.refl _
  | tail _ isChild ih =>
    exact (Node.contents_sublist isChild).trans ih

end Node

/-- The tokens held by a statement of a script stand apart. -/
theorem Stmt.contents_apart {source : String} {stmt : Stmt}
    (kept : stmt ∈ (parse (lex source).tokens).statements) :
    stmt.contents.Pairwise fun first second => first.stop ≤ second.start.offset := by
  have inProgram : stmt.contents <+ Grammar.statementContents
      (parse (lex source).tokens).statements :=
    List.sublist_flatten_of_mem (List.mem_map_of_mem kept)
  exact (lexChars_apart _).sublist
    (inProgram.trans (Grammar.contents_parse_sublist (lex_terminated source)))

/--
Source spans nest.  In every statement kept of a script, with or without errors,
a node starts before it stops.  It encloses its children, apart from the value
in front of the arrow of a `break`, and in the order in which a script writes
them its children do not overlap.
-/
theorem spans_nest
    (source : String)
    (statement : Stmt)
    (kept : statement ∈ (parse (lex source).tokens).statements)
    (node : Node)
    (stands : node.StandsIn (.stmt statement)) :
    node.start ≤ node.stop ∧
      (∀ child ∈ node.children,
        (¬ node.LeavesWith child → node.Encloses child) ∧
          (node.LeavesWith child → child.stop ≤ node.start)) ∧
      node.written.Perm node.children ∧
      node.written.Pairwise fun earlier later => earlier.stop ≤ later.start := by
  have apart := (Stmt.contents_apart kept).sublist stands.contents_sublist
  refine ⟨Node.start_le_stop apart, fun child isChild => ?_, node.written_perm,
    Node.written_apart apart⟩
  constructor
  · exact fun inside => Node.encloses_of_subset apart (Node.span_subset isChild inside)
  · exact Node.stop_le_of_leavesWith apart

/-- The value of a `break` stands in front of its block, and the keyword inside it. -/
theorem spans_nest_around_break :
    ∃ value block keyword,
      (parse (lex "x -> break").tokens).statements = [.expression (.block block)] ∧
        block.statements = [.expression value, .leave keyword] ∧
        (Node.expr (.block block)).Encloses (.stmt (.leave keyword)) ∧
        (Node.stmt (.expression value)).stop ≤ (Node.expr (.block block)).start := by
  let name : Token := ⟨.identifier, "x", ⟨0, 1, 1⟩, .none⟩
  let arrow : Token := ⟨.arrow, "->", ⟨2, 1, 3⟩, .none⟩
  let keyword : Token := ⟨.kwBreak, "break", ⟨5, 1, 6⟩, .none⟩
  let block : Block := ⟨arrow, [.expression (.reference name), .leave keyword], keyword⟩
  have lexed : (lex "x -> break").tokens =
      [name, arrow, keyword, ⟨.endOfInput, "", ⟨10, 1, 11⟩, .none⟩] := by decide +kernel
  have parsed : (parse (lex "x -> break").tokens).statements = [.expression (.block block)] := by
    rw [lexed]
    rfl
  obtain ⟨-, nests, -⟩ := spans_nest "x -> break" (.expression (.block block))
    (by simp [parsed])
    (.expr (.block block)) (.single (List.mem_singleton_self _))
  refine ⟨.reference name, block, keyword, parsed, rfl,
    (nests _ (List.mem_cons_of_mem _ List.mem_cons_self)).1 ?_, ?_⟩
  · rintro ⟨_, _, _, -, -, impossible⟩
    cases impossible
  · exact (nests _ List.mem_cons_self).2 ⟨arrow, _, keyword, rfl, rfl, rfl⟩

end ArrowScript

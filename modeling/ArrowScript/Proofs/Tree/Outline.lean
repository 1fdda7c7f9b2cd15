import ArrowScript.Proofs.Grammar.Contents
import ArrowScript.Grammar.Program

namespace ArrowScript

/-!
# What stands directly in a body

A body is a list of statements that runs in a scope of its own: a whole
program, a block, the body of a loop, of an arm, of a function or of a group.
The outline of a piece of code lists what it does in the scope where it runs.
It names the bodies inside the code without looking into them, since these run
in other scopes.
-/

open scoped List

/-- Statements that run in a scope of their own, and the names bound before they start. -/
structure Body where
  bound : List String
  statements : List Stmt

/-- What a piece of code does in the scope where it runs. -/
inductive Element
  /-- The value of a variable is read. -/
  | reads (name : Token)
  /-- A variable is assigned to. -/
  | assigns (name : Token) (value : Expr)
  /-- A variable is declared. -/
  | variable (name : Token)
  /-- A function is declared. -/
  | function (name : Token) (parameters : List Token) (body : Block)
  /-- A group is declared. -/
  | group (name : Token)
  /-- Names are imported. -/
  | use (path : Token)
  /-- A body runs in a new scope inside this one. -/
  | body (body : Body)

namespace Body

def ofBlock (block : Block) : Body :=
  ⟨[], block.statements⟩

/-- The body of a loop over a collection. -/
def ofEach (item : Token) (block : Block) : Body :=
  ⟨[item.lexeme], block.statements⟩

def ofFunction (params : List Token) (block : Block) : Body :=
  ⟨params.map Token.lexeme, block.statements⟩

/-- The body of a program. -/
def ofProgram (stmts : List Stmt) : Body :=
  ⟨[], stmts⟩

/-- What runs of a text: nothing of it unless it is valid. -/
def ofText (text : String) : Body :=
  if (read text).valid then .ofProgram (read text).statements else .ofProgram []

theorem bound_ofText (text : String) : (ofText text).bound = [] := by
  unfold ofText
  split <;> rfl

end Body

/-- The variable that an assignment changes, if its target is one. -/
def Expr.assignedOutline (target value : Expr) : List Element :=
  match target with
  | .reference name => [.assigns name value]
  | _ => []

mutual

/-- What an expression does in the scope where it is evaluated. -/
def Expr.outline : Expr → List Element
  | .binary _ left right => left.outline ++ right.outline
  | .unary _ operand => operand.outline
  | .literal _ _ => []
  | .grouping inner _ _ => inner.outline
  | .reference name => [.reads name]
  | .declaration _ name => [.variable name]
  | .assign target value => value.outline ++ (target.outline ++ target.assignedOutline value)
  | .call callee args => callee.outline ++ Expr.listOutline args
  | .choice _ subject arms otherwise _ =>
    subject.outline ++ (Arm.listOutline arms ++ otherwise.toList.map (.body ∘ Body.ofBlock))
  | .context _ => []
  | .block body => [.body (.ofBlock body)]
  | .array _ items _ => ArrayItem.listOutline items
  | .object _ items _ => ObjectItem.listOutline items
  | .element base pos _ _ => base.outline ++ pos.outline
  | .push target value _ => .reads target :: value.outline
  | .interpolation _ parts _ => Expr.listOutline parts
  | .groupMember group _ => group.outline
  | .groupName _ => []
  | .functionName _ => []

def Expr.listOutline : List Expr → List Element
  | [] => []
  | expr :: rest => expr.outline ++ Expr.listOutline rest

/-- What the condition of an arm does, and the body of the arm. -/
def Arm.outline : Arm → List Element
  | ⟨condition, body⟩ => condition.outline ++ [.body (.ofBlock body)]

def Arm.listOutline : List Arm → List Element
  | [] => []
  | arm :: rest => arm.outline ++ Arm.listOutline rest

/-- What an item of an array literal does. -/
def ArrayItem.outline : ArrayItem → List Element
  | ⟨value, _⟩ => value.outline

/-- What the items of an array literal do. -/
def ArrayItem.listOutline : List ArrayItem → List Element
  | [] => []
  | item :: rest => item.outline ++ ArrayItem.listOutline rest

/-- What an item of an object literal does. -/
def ObjectItem.outline : ObjectItem → List Element
  | .entry _ _ value => value.outline
  | .spread value => value.outline

/-- What the items of an object literal do. -/
def ObjectItem.listOutline : List ObjectItem → List Element
  | [] => []
  | item :: rest => item.outline ++ ObjectItem.listOutline rest

/-- What a statement does in the scope where it is executed. -/
def Stmt.outline : Stmt → List Element
  | .expression value => value.outline
  | .conditional _ branches otherwise =>
    Arm.listOutline branches ++ otherwise.toList.map (.body ∘ Body.ofBlock)
  | .loop _ condition body => condition.outline ++ [.body (.ofBlock body)]
  | .each _ item collection body => collection.outline ++ [.body (.ofEach item body)]
  | .function _ name params body => [.function name params body]
  | .leave _ => []
  | .use _ path => [.use path]
  | .group _ name body => [.group name, .body (.ofBlock body)]
  | .exported _ declaration => declaration.outline

end

namespace Body

/-- What the statements of a body do in its scope. -/
def outline (body : Body) : List Element :=
  body.statements.flatMap Stmt.outline

/-- The tokens that carry the meaning of a body. -/
def contents (body : Body) : List Token :=
  body.statements.flatMap Stmt.contents

/-- A body stands in another one, with no third one between them. -/
def StandsIn (inner outer : Body) : Prop :=
  .body inner ∈ outer.outline ∨
    ∃ name params block,
      .function name params block ∈ outer.outline ∧ inner = .ofFunction params block

/--
The bodies around a place, innermost first.  Each stands directly in the next
one, and the last is a whole program.
-/
def Nested (program : Body) : List Body → Prop
  | [] => False
  | [last] => last = program
  | inner :: outer :: rest => inner.StandsIn outer ∧ Nested program (outer :: rest)

theorem outline_subset {body : Body} {statement : Stmt} (mem : statement ∈ body.statements) :
    statement.outline ⊆ body.outline :=
  fun _ inside => List.mem_flatMap.mpr ⟨statement, mem, inside⟩

end Body

/-- The tokens that an element stands for, in the order in which a script writes them. -/
def Element.contents : Element → List Token
  | .reads name => [name]
  | .assigns name value => value.contents ++ [name]
  | .variable name => [name]
  | .function _ _ block => block.contents
  | .group name => [name]
  | .use path => [path]
  | .body inner => inner.contents

/-- The tokens of every element of an outline are among the tokens of the code. -/
def Covered (outline : List Element) (contents : List Token) : Prop :=
  ∀ element ∈ outline, element.contents <+ contents

namespace Covered

theorem nil (contents : List Token) : Covered [] contents := by
  simp [Covered]

variable {contents : List Token}

theorem cons {element : Element} {outline : List Element} (inside : element.contents <+ contents)
    (covered : Covered outline contents) : Covered (element :: outline) contents :=
  List.forall_mem_cons.mpr ⟨inside, covered⟩

theorem singleton {element : Element} (inside : element.contents <+ contents) :
    Covered [element] contents :=
  cons inside (nil contents)

theorem append {first second : List Element} (firstCovered : Covered first contents)
    (secondCovered : Covered second contents) : Covered (first ++ second) contents := by
  intro element mem
  rcases List.mem_append.mp mem with inFirst | inSecond
  · exact firstCovered element inFirst
  · exact secondCovered element inSecond

theorem mono {outline : List Element} {fewer more : List Token} (covered : Covered outline fewer)
    (inside : fewer <+ more) : Covered outline more :=
  fun element mem => (covered element mem).trans inside

/-- Outlines of two pieces of code that stand one behind the other. -/
theorem beside {first second : List Element} {earlier later : List Token}
    (firstCovered : Covered first earlier) (secondCovered : Covered second later) :
    Covered (first ++ second) (earlier ++ later) :=
  (firstCovered.mono (List.sublist_append_left earlier later)).append
    (secondCovered.mono (List.sublist_append_right earlier later))

end Covered

theorem Covered.enclosed {outline : List Element} {inner : List Token}
    (covered : Covered outline inner) (opening closing : Token) :
    Covered outline (opening :: (inner ++ [closing])) :=
  covered.mono ((List.sublist_append_left inner [closing]).cons opening)

private theorem covered_body {block : Block} {body : Body}
    (same : body.statements = block.statements) : Covered [.body body] block.contents := by
  apply Covered.singleton
  rw [Element.contents, Body.contents, same]
  exact block.statements_sublist

private theorem covered_otherwise (otherwise : Option Block) :
    Covered (otherwise.toList.map (.body ∘ Body.ofBlock)) (Block.optionContents otherwise) := by
  cases otherwise with
  | none => exact .nil _
  | some block => exact covered_body rfl

mutual

theorem Expr.outline_covered : (expr : Expr) → Covered expr.outline expr.contents
  | .binary op left right =>
    left.outline_covered.beside
      (right.outline_covered.mono (List.sublist_cons_self op right.contents))
  | .unary op operand =>
    operand.outline_covered.mono (List.sublist_cons_self op operand.contents)
  | .literal _ token => .nil [token]
  | .grouping inner opening closing => inner.outline_covered.enclosed opening closing
  | .reference name => .singleton (List.Sublist.refl [name])
  | .declaration keyword name => .singleton (List.sublist_cons_self keyword [name])
  | .assign target value => by
      have target_covered := target.outline_covered
      refine ((value.outline_covered).mono (List.sublist_append_left _ _)).append
        ((target_covered.mono (List.sublist_append_right _ _)).append ?_)
      cases target with
      | reference name => exact .singleton (List.Sublist.refl (value.contents ++ [name]))
      | _ => exact .nil _
  | .call callee args => callee.outline_covered.beside (Expr.listOutline_covered args)
  | .choice keyword subject arms otherwise closing => by
      have covered := (subject.outline_covered.beside
        ((Arm.listOutline_covered arms).beside (covered_otherwise otherwise))).enclosed
          keyword closing
      simpa [Expr.outline] using covered
  | .context token => .nil [token]
  | .block body => covered_body rfl
  | .array opening items closing => (ArrayItem.listOutline_covered items).enclosed opening closing
  | .object opening items closing => (ObjectItem.listOutline_covered items).enclosed opening closing
  | .element base pos opening closing =>
    base.outline_covered.beside (pos.outline_covered.enclosed opening closing)
  | .push target value closing =>
    .cons
      ((List.sublist_append_left [target] [closing]).trans (List.sublist_append_right _ _))
      (value.outline_covered.mono (List.sublist_append_left value.contents _))
  | .interpolation opening parts closing =>
    (Expr.listOutline_covered parts).enclosed opening closing
  | .groupMember group name =>
    group.outline_covered.mono (List.sublist_append_left group.contents [name])
  | .groupName name => .nil [name]
  | .functionName name => .nil [name]

theorem Expr.listOutline_covered :
    (parts : List Expr) → Covered (Expr.listOutline parts) (Expr.listContents parts)
  | [] => .nil []
  | expr :: rest => expr.outline_covered.beside (Expr.listOutline_covered rest)

theorem Arm.outline_covered : (arm : Arm) → Covered arm.outline arm.contents
  | ⟨condition, _⟩ => condition.outline_covered.beside (covered_body rfl)

theorem Arm.listOutline_covered :
    (arms : List Arm) → Covered (Arm.listOutline arms) (Arm.listContents arms)
  | [] => .nil []
  | arm :: rest => arm.outline_covered.beside (Arm.listOutline_covered rest)

theorem ArrayItem.outline_covered : (item : ArrayItem) → Covered item.outline item.contents
  | ⟨value, _⟩ => value.outline_covered

theorem ArrayItem.listOutline_covered : (items : List ArrayItem) →
      Covered (ArrayItem.listOutline items) (ArrayItem.listContents items)
  | [] => .nil []
  | item :: rest => item.outline_covered.beside (ArrayItem.listOutline_covered rest)

theorem ObjectItem.outline_covered : (item : ObjectItem) → Covered item.outline item.contents
  | .entry _ token value => value.outline_covered.mono (List.sublist_cons_self token value.contents)
  | .spread value => value.outline_covered

theorem ObjectItem.listOutline_covered : (items : List ObjectItem) →
      Covered (ObjectItem.listOutline items) (ObjectItem.listContents items)
  | [] => .nil []
  | item :: rest => item.outline_covered.beside (ObjectItem.listOutline_covered rest)

theorem Stmt.outline_covered : (stmt : Stmt) → Covered stmt.outline stmt.contents
  | .expression value => value.outline_covered
  | .conditional keyword branches otherwise =>
    ((Arm.listOutline_covered branches).beside (covered_otherwise otherwise)).mono
      (List.sublist_cons_self keyword _)
  | .loop keyword condition _ =>
    (condition.outline_covered.beside (covered_body rfl)).mono (List.sublist_cons_self keyword _)
  | .each keyword item collection _ =>
    (collection.outline_covered.beside (covered_body rfl)).mono
      ((List.sublist_cons_self item _).cons keyword)
  | .function keyword name params _ =>
    .singleton (((List.sublist_append_right params _).cons name).cons keyword)
  | .leave keyword => .nil [keyword]
  | .use keyword path => .singleton (List.sublist_cons_self keyword [path])
  | .group keyword name _ =>
    .cons (List.singleton_sublist.mpr (by simp))
      ((covered_body rfl).mono ((List.sublist_cons_self name _).cons keyword))
  | .exported keyword declaration =>
    declaration.outline_covered.mono (List.sublist_cons_self keyword _)

end

theorem Body.outline_covered (body : Body) : Covered body.outline body.contents := by
  intro element mem
  obtain ⟨stmt, inBody, inside⟩ := List.mem_flatMap.mp mem
  apply (stmt.outline_covered element inside).trans
  obtain ⟨front, back, shape⟩ := List.append_of_mem inBody
  unfold contents
  rw [shape, List.flatMap_append, List.flatMap_cons]
  exact (List.sublist_append_left _ _).trans (List.sublist_append_right _ _)

theorem Body.StandsIn.contents_sublist {inner outer : Body} (stands : inner.StandsIn outer) :
    inner.contents <+ outer.contents := by
  rcases stands with isBody | ⟨name, params, block, isFunction, rfl⟩
  · exact outer.outline_covered _ isBody
  · exact block.statements_sublist.trans (outer.outline_covered _ isFunction)

/-- The tokens of a body are among the tokens of the program around it, in order. -/
theorem Body.Nested.contents_sublist {program body : Body} {outer : List Body}
    (nested : Nested program (body :: outer)) : body.contents <+ program.contents := by
  induction outer generalizing body with
  | nil =>
    have isProgram : body = program := nested
    subst isProgram
    exact List.Sublist.refl _
  | cons next rest ih =>
    exact nested.1.contents_sublist.trans (ih nested.2)

end ArrowScript

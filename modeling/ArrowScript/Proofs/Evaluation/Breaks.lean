import ArrowScript.Proofs.Evaluation.Visit

namespace ArrowScript

/-!
# Where a break can come from

A break leaves the statement that is executed only if it stands in it by the
text, outside of the loops and functions there.  Each construct passes a break
on, ends it or turns it into an error, and none of them makes one up.
-/

mutual

/-- The keywords with which executing a statement can break. -/
def Stmt.breaks : Stmt → List Token
  | .expression value => value.breaks
  | .conditional _ branches otherwise => Arm.listBreaks branches ++ Block.optionBreaks otherwise
  | .leave keyword => [keyword]
  | .loop _ _ _ | .each _ _ _ _ | .function _ _ _ _ | .group _ _ _ | .exported _ _ | .use _ _ => []

/-- The keywords with which an expression that stands as a statement can break. -/
def Expr.breaks : Expr → List Token
  | .block body => body.breaks
  | .choice _ _ arms otherwise _ => Arm.listBreaks arms ++ Block.optionBreaks otherwise
  | _ => []

def Block.breaks : Block → List Token
  | ⟨_, stmts, _⟩ => Stmt.listBreaks stmts

def Block.optionBreaks : Option Block → List Token
  | none => []
  | some body => body.breaks

/-- The keywords with which the body of an arm can break; its condition cannot. -/
def Arm.breaks : Arm → List Token
  | ⟨_, body⟩ => body.breaks

def Arm.listBreaks : List Arm → List Token
  | [] => []
  | arm :: rest => arm.breaks ++ Arm.listBreaks rest

def Stmt.listBreaks : List Stmt → List Token
  | [] => []
  | statement :: rest => statement.breaks ++ Stmt.listBreaks rest

end

/-- A completion that is a break is one with a keyword of a list. -/
def Completion.BreaksIn (keywords : List Token) : Completion → Prop
  | .normal _ => True
  | .broke keyword _ => keyword ∈ keywords

theorem Completion.BreaksIn.mono {completion : Completion} {keywords more : List Token}
    (breaks : completion.BreaksIn keywords) (included : keywords ⊆ more) :
    completion.BreaksIn more := by
  cases completion with
  | normal outcome => trivial
  | broke keyword outcome => exact included breaks

namespace Action

/-- Every value that an action gives has a property. -/
def Gives (action : Action α) (post : α → Prop) : Prop :=
  ∀ machine value final, action machine = .ok value final → post value

namespace Gives

variable {α β : Type}

theorem anything (action : Action α) : Gives action fun _ => True :=
  fun _ _ _ _ => trivial

theorem pure {value : α} {post : α → Prop} (holds : post value) :
    Gives (Pure.pure value) post := by
  intro machine result final ended
  cases ended
  exact holds

variable {action : Action α}

theorem bind {next : α → Action β} {middle : α → Prop} {post : β → Prop}
    (gives : Gives action middle) (goesOn : ∀ value, middle value → Gives (next value) post) :
    Gives (action >>= next) post := by
  intro machine result final ended
  cases outcome : action machine with
  | ok value between =>
    rw [bind_of_ok outcome] at ended
    exact goesOn value (gives machine value between outcome) between result final ended
  | error failure between =>
    rw [bind_of_error outcome] at ended
    cases ended

theorem behind (action : Action α) {next : α → Action β} {post : β → Prop}
    (goesOn : ∀ value, Gives (next value) post) : Gives (action >>= next) post :=
  (anything action).bind fun value _ => goesOn value

theorem mono {stronger weaker : α → Prop} (gives : Gives action stronger)
    (implied : ∀ value, stronger value → weaker value) : Gives action weaker :=
  fun machine value final ended => implied value (gives machine value final ended)

theorem keepingContext {post : α → Prop} (scope : Ref .scope) (gives : Gives action post) :
    Gives (Action.keepingContext scope action) post := by
  intro machine value final ended
  unfold Action.keepingContext at ended
  cases outcome : action machine with
  | ok result between =>
    simp only [outcome] at ended
    cases ended
    exact gives machine value between outcome
  | error failure between =>
    simp only [outcome] at ended
    cases ended

end Gives

end Action

namespace Evaluator

open ArrowScript.Action

/-- Statements break only with keywords of their own. -/
def BreaksByText (evaluator : Evaluator) : Prop :=
  ∀ frame stmt, Gives (evaluator.execute frame stmt) (·.BreaksIn stmt.breaks)

variable {evaluator : Evaluator}

theorem chosen_breaks {chosen : Bool} {taken later : Action Completion} {arm : Arm}
    {rest : List Arm} {last : List Token} (takenBreaks : Gives taken (·.BreaksIn arm.body.breaks))
    (laterBreaks : Gives later (·.BreaksIn (Arm.listBreaks rest ++ last))) :
    Gives (if chosen = true then taken else later)
      (·.BreaksIn (Arm.listBreaks (arm :: rest) ++ last)) := by
  have here : arm.body.breaks ⊆ Arm.listBreaks (arm :: rest) ++ last := by
    cases arm with
    | mk condition body => exact List.subset_append_of_subset_left _ (List.subset_append_left _ _)
  have there : Arm.listBreaks rest ++ last ⊆ Arm.listBreaks (arm :: rest) ++ last := by
    rw [Arm.listBreaks, List.append_assoc]
    exact List.subset_append_right _ _
  split
  · exact takenBreaks.mono fun _ breaks => breaks.mono here
  · exact laterBreaks.mono fun _ breaks => breaks.mono there

theorem completes_breaks (action : Action α) (outcome : α → Outcome) (keywords : List Token) :
    Gives (action >>= fun value => Pure.pure (Completion.normal (outcome value)))
      (·.BreaksIn keywords) :=
  .behind action fun _ => .pure trivial

variable (byText : evaluator.BreaksByText) (frame : Frame)

include byText

theorem executeAll_breaks (last : Outcome) (stmts : List Stmt) :
    Gives (evaluator.executeAll frame last stmts) (·.BreaksIn (Stmt.listBreaks stmts)) := by
  induction stmts generalizing last with
  | nil => exact .pure trivial
  | cons stmt rest ih =>
    unfold executeAll
    refine (byText frame stmt).bind ?_
    intro completion breaks
    cases completion with
    | broke keyword outcome => exact .pure (List.mem_append_left _ breaks)
    | normal outcome =>
      refine (ih (last.andThen outcome)).mono ?_
      exact fun completion later => later.mono (List.subset_append_right _ _)

theorem executeBlock_breaks (body : Block) :
    Gives (evaluator.executeBlock frame body) (·.BreaksIn body.breaks) := by
  cases body with
  | mk opening stmts closing =>
    exact .behind _ fun inner => executeAll_breaks byText inner .nothing stmts

theorem otherwise_breaks (otherwise : Option Block) : Gives (match otherwise with
        | some body => evaluator.executeBlock frame body
        | none => Pure.pure (.normal .nothing))
      (·.BreaksIn (Block.optionBreaks otherwise)) := by
  cases otherwise with
  | none => exact .pure trivial
  | some body => exact executeBlock_breaks byText frame body

theorem executeBranches_breaks (otherwise : Option Block) (branches : List Arm) :
    Gives (evaluator.executeBranches frame otherwise branches)
      (·.BreaksIn (Arm.listBreaks branches ++ Block.optionBreaks otherwise)) := by
  induction branches with
  | nil => exact otherwise_breaks byText frame otherwise
  | cons branch rest ih =>
    unfold executeBranches
    apply Gives.behind
    intro condition
    apply Gives.behind
    intro _
    exact chosen_breaks (executeBlock_breaks byText frame branch.body) ih

theorem executeArms_breaks (subject : Value) (otherwise : Option Block) (arms : List Arm) :
    Gives (evaluator.executeArms frame subject otherwise arms)
      (·.BreaksIn (Arm.listBreaks arms ++ Block.optionBreaks otherwise)) := by
  induction arms with
  | nil => exact .behind _ fun _ => otherwise_breaks byText frame otherwise
  | cons arm rest ih =>
    unfold executeArms
    apply Gives.behind
    intro _
    apply Gives.behind
    intro condition
    apply Gives.behind
    intro _
    apply chosen_breaks _ ih
    exact .behind _ fun _ => executeBlock_breaks byText frame arm.body

theorem executeMatch_breaks (subject : Expr) (arms : List Arm) (otherwise : Option Block) :
    Gives (evaluator.executeMatch frame subject arms otherwise)
      (·.BreaksIn (Arm.listBreaks arms ++ Block.optionBreaks otherwise)) :=
  .behind _ fun value =>
    (executeArms_breaks byText frame value otherwise arms).keepingContext frame.scope

theorem evaluateOutcome_breaks (expr : Expr) :
    Gives (evaluator.evaluateOutcome frame expr) (·.BreaksIn expr.breaks) := by
  unfold evaluateOutcome
  split
  · exact executeBlock_breaks byText frame _
  · exact executeMatch_breaks byText frame _ _ _
  · exact completes_breaks _ _ _

theorem executeStatement_breaks (stmt : Stmt) :
    Gives (evaluator.executeStatement frame stmt) (·.BreaksIn stmt.breaks) := by
  cases stmt with
  | expression value =>
    unfold executeStatement
    simp only
    split
    · exact completes_breaks _ _ _
    · exact evaluateOutcome_breaks byText frame value
  | conditional keyword branches otherwise =>
    exact executeBranches_breaks byText frame otherwise branches
  | leave keyword => exact .pure List.mem_cons_self
  | function | group | exported | loop => exact completes_breaks _ _ _
  | each keyword item collection body =>
    exact .behind _ fun _ => .behind _ fun _ => completes_breaks _ _ _
  | use keyword path => exact .behind _ fun _ => .pure trivial

end Evaluator

/-- However deep evaluation may be nested, statements break only with keywords of their own. -/
theorem evaluator_breaksByText (depth : Nat) : (evaluator depth).BreaksByText := by
  induction depth with
  | zero =>
    intro frame stmt machine completion final ended
    cases ended
  | succ depth ih => exact Evaluator.executeStatement_breaks ih

end ArrowScript

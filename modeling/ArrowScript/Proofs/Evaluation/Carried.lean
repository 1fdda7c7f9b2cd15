import ArrowScript.Proofs.Store.Law
import ArrowScript.Proofs.Store.Relocation

namespace ArrowScript

/-!
# What code gives

Code gives values, outcomes, frames and the like.  Each kind of result can be
put on a ground, and each is known to hold only such values and natives as are
known to occur.
-/

/-- A frame as it is above a ground. -/
def Frame.on (frame : Frame) (ground : Ground) : Frame :=
  ⟨frame.scope.on ground, ground.sources + frame.source⟩

/-- An outcome as it is above a ground. -/
def Outcome.on (outcome : Outcome) (ground : Ground) : Outcome :=
  match outcome with
  | .nothing => .nothing
  | .produced value => .produced (value.on ground)

/-- A completion as it is above a ground. -/
def Completion.on (completion : Completion) (ground : Ground) : Completion :=
  match completion with
  | .normal outcome => .normal (outcome.on ground)
  | .broke keyword outcome => .broke keyword (outcome.on ground)

variable {ground : Ground}

@[simp]
theorem Outcome.andThen_on (last outcome : Outcome) :
    (last.on ground).andThen (outcome.on ground) = (last.andThen outcome).on ground := by
  cases outcome with
  | nothing => rfl
  | produced value =>
    cases last with
    | nothing => rfl
    | produced earlier =>
      simp only [on, andThen, Value.isNull_on]
      split <;> rfl

@[simp]
theorem Outcome.value_on (outcome : Outcome) :
    (outcome.on ground).value = outcome.value.on ground := by
  cases outcome <;> rfl

@[simp]
theorem Completion.outcome_on (completion : Completion) :
    (completion.on ground).outcome = completion.outcome.on ground := by
  cases completion <;> rfl

namespace Operator

@[simp]
theorem number_on (value : Value) (otherKind : Fault) :
    number (value.on ground) otherKind = number value otherKind := by
  cases value <;> rfl

@[simp]
theorem index_on (value : Value) : index (value.on ground) = index value := by
  simp only [index, number_on]

theorem add_on (left right : Value) :
    add (left.on ground) (right.on ground) = (add left right).map (·.on ground) := by
  cases left with
  | number first =>
    cases right with
    | number second =>
      simp only [Value.on, Value.withRef, add, number]
      by_cases firstNaN : Number.isNaN first
      · simp [firstNaN, bind, Except.bind, Except.map]
      · by_cases secondNaN : Number.isNaN second
        · simp [firstNaN, secondNaN, bind, Except.bind, Except.map]
        · simp [firstNaN, secondNaN, bind, Except.bind, Except.map, pure, Except.pure]
    | _ => rfl
  | text first => cases right <;> rfl
  | _ => cases right <;> rfl

theorem numeric_on (op : Kind) (left right : Float) :
    numeric op left right = (numeric op left right).map (·.on ground) := by
  unfold numeric
  split
  · split <;> rfl
  all_goals rfl

theorem binary_on (op : Kind) (left right : Value) :
    binary op (left.on ground) (right.on ground) = (binary op left right).map (·.on ground) := by
  unfold binary
  split
  · exact add_on left right
  · rw [Value.same_on]
    rfl
  · rw [Value.same_on]
    rfl
  · rw [Value.isTrue_on, Value.isTrue_on]
    rfl
  · rw [Value.isTrue_on, Value.isTrue_on]
    rfl
  · rw [number_on, number_on]
    cases number left .notANumber with
    | error fault => rfl
    | ok first =>
      cases number right .notANumber with
      | error fault => rfl
      | ok second => exact numeric_on _ first second

theorem unary_on (op : Kind) (operand : Value) :
    unary op (operand.on ground) = (unary op operand).map (·.on ground) := by
  unfold unary
  split
  · rw [number_on]
    cases number operand .notANumber <;> rfl
  · rw [Value.isTrue_on]
    rfl

variable {left right value : Value} {op : Kind}

theorem isPlain_of_numeric {first second : Float}
    (ran : numeric op first second = .ok value) : value.isPlain = true := by
  unfold numeric at ran
  split at ran
  · split at ran
    · cases ran
    · cases ran
      rfl
  all_goals
    cases ran
    try rfl

theorem isPlain_of_add (ran : add left right = .ok value) : value.isPlain = true := by
  unfold add at ran
  split at ran
  · cases ran
    rfl
  · rename_i first second
    simp only [bind, Except.bind] at ran
    split at ran
    · cases ran
    · split at ran
      · cases ran
      · cases ran
        rfl
  · cases ran

theorem isPlain_of_binary (ran : binary op left right = .ok value) : value.isPlain = true := by
  unfold binary at ran
  split at ran
  · exact isPlain_of_add ran
  · cases ran
    rfl
  · cases ran
    rfl
  · cases ran
    rfl
  · cases ran
    rfl
  · simp only [bind, Except.bind] at ran
    split at ran
    · cases ran
    · split at ran
      · cases ran
      · exact isPlain_of_numeric ran

theorem isPlain_of_unary {operand : Value} (ran : unary op operand = .ok value) :
    value.isPlain = true := by
  unfold unary at ran
  split at ran
  · simp only [bind, Except.bind] at ran
    split at ran
    · cases ran
    · cases ran
      rfl
  · cases ran
    rfl

end Operator

/-- What a name of a kind stands for. -/
abbrev NameKind.Content : NameKind → Type
  | .variableName => Value
  | .functionName => Function
  | .groupName => Ref .group

/-- The names of a kind in a scope. -/
def Scope.names : (kind : NameKind) → Scope → Namespace kind.Content
  | .variableName => bindings
  | .functionName => functions
  | .groupName => groups

/-- What is known of the values and the functions of a run. -/
structure Knowledge where
  value : Value → Prop
  function : Function → Prop
  plain : ∀ each : Value, each.isPlain = true → value each

def Knowledge.nothing : Knowledge :=
  ⟨fun _ => True, fun _ => True, fun _ _ => trivial⟩

/-- What is known at one time is known at another one. -/
structure Knowledge.Within (earlier later : Knowledge) : Prop where
  value : ∀ each, earlier.value each → later.value each
  function : ∀ each, earlier.function each → later.function each

theorem Knowledge.Within.refl (knowledge : Knowledge) : knowledge.Within knowledge :=
  ⟨fun _ known => known, fun _ known => known⟩

/-- Results of code, how they are put on a ground and what is known of them. -/
class Carried (α : Type) where
  on : α → Ground → α
  known : Knowledge → α → Prop
  nothing : ∀ result, known .nothing result
  grow : ∀ {earlier later : Knowledge},
    earlier.Within later → ∀ result, known earlier result → known later result

namespace Carried

/-- Results of which nothing is to be known. -/
abbrev unknown (on : α → Ground → α) : Carried α where
  on := on
  known _ _ := True
  nothing _ := trivial
  grow _ _ _ := trivial

/-- Results without references. -/
abbrev plain : Carried α :=
  unknown fun result _ => result

instance : Carried Unit := plain

instance : Carried Bool := plain

instance : Carried Nat := plain

instance : Carried Int := plain

instance : Carried String := plain

instance : Carried Frame := unknown Frame.on

instance : Carried Group := unknown Group.on

instance {region : Region} : Carried (Ref region) := unknown Ref.on

instance : Carried (Entry (Ref .group)) :=
  unknown fun entry ground => entry.on ground (·.on ground)

instance : Carried Value where
  on := Value.on
  known knowledge := knowledge.value
  nothing _ := trivial
  grow within _ := within.value _

abbrev value : Carried Value := inferInstance

instance : Carried Outcome where
  on := Outcome.on
  known knowledge outcome := knowledge.value outcome.value
  nothing _ := trivial
  grow within _ := within.value _

instance : Carried Completion where
  on := Completion.on
  known knowledge completion := knowledge.value completion.outcome.value
  nothing _ := trivial
  grow within _ := within.value _

instance : Carried (Option Value) where
  on context ground := context.map (·.on ground)
  known knowledge context := ∀ value ∈ context, knowledge.value value
  nothing _ _ _ := trivial
  grow within _ known value member := within.value value (known value member)

instance : Carried (Array Value) where
  on items ground := items.map (·.on ground)
  known knowledge items := ∀ value ∈ items, knowledge.value value
  nothing _ _ _ := trivial
  grow within _ known value member := within.value value (known value member)

instance : Carried (List Value) where
  on values ground := values.map (·.on ground)
  known knowledge values := ∀ value ∈ values, knowledge.value value
  nothing _ _ _ := trivial
  grow within _ known value member := within.value value (known value member)

instance : Carried Object where
  on := Object.on
  known knowledge object :=
    ∀ item ∈ object, knowledge.value item.key ∧ knowledge.value item.value
  nothing _ _ _ := ⟨trivial, trivial⟩
  grow within _ known item member :=
    (known item member).imp (within.value item.key) (within.value item.value)

instance : Carried (Entry Value) where
  on entry ground := entry.on ground (·.on ground)
  known knowledge entry := knowledge.value entry.value
  nothing _ := trivial
  grow within _ := within.value _

instance : Carried (Entry Function) where
  on entry ground := entry.on ground (·.on ground)
  known knowledge entry := knowledge.function entry.value
  nothing _ := trivial
  grow within _ := within.function _

instance : Carried (Function × Token) where
  on found ground := (found.1.on ground, found.2)
  known knowledge found := knowledge.function found.1
  nothing _ := trivial
  grow within _ := within.function _

theorem known_none {knowledge : Knowledge} : known knowledge (none : Option Value) := by
  rintro _ ⟨⟩

theorem known_some {knowledge : Knowledge} {value : Value} (isKnown : knowledge.value value) :
    known knowledge (some value) := by
  rintro _ ⟨⟩
  exact isKnown

instance : (kind : NameKind) → Carried (Entry kind.Content)
  | .variableName => inferInstanceAs (Carried (Entry Value))
  | .functionName => inferInstanceAs (Carried (Entry Function))
  | .groupName => inferInstanceAs (Carried (Entry (Ref .group)))

end Carried

theorem Knowledge.ofConstant (knowledge : Knowledge) (constant : Constant) :
    knowledge.value (.ofConstant constant) := by
  cases constant <;> exact knowledge.plain _ rfl

theorem Knowledge.andThen (knowledge : Knowledge) {last next : Outcome}
    (lastKnown : knowledge.value last.value) (nextKnown : knowledge.value next.value) :
    knowledge.value (last.andThen next).value := by
  unfold Outcome.andThen
  split
  · exact lastKnown
  · exact nextKnown
  · split
    · exact lastKnown
    · exact nextKnown

end ArrowScript

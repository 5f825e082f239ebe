import Scriptorium.Proofs.Script.Checking
import Scriptorium.Proofs.Script.Occurrences

/-!
# What the steps of the check have in common

The check of a script is put together from a few elementary steps. A property
that they have, and that a sequence of steps has when its parts do, is a property
of the check of every statement. The steps that are made of several others are
cut into their parts here, and the forms that calls and conditions may have are
told apart once.
-/

namespace Scriptorium.ScriptCheck

open Interpretation (textsOfCall textsOfCall_eq_nil)

variable {script : QualifiedName}

/-- The text of an initial value, if there is one. -/
def initialValue (script : QualifiedName) :
    Option String → Checking (Option (Option (ExprRef × ResultKind)))
  | none => return none
  | some text => some <$> expression script text

/-- Declares a local of this type and stores this initial value. -/
def enterLocal (name : String) (type : Option SemanticType)
    (value : Option (Option (ExprRef × ResultKind))) : Checking (Option Instruction) := do
  match type with
  | none => return none
  | some type =>
    if ← declare (·.declareLocal name type) then
      match value with
      | none => return some (.declareLocal name type none)
      | some none => return none
      | some (some value) =>
        if ← assignable name type value then
          return some (.declareLocal name type (some value.1))
        else
          return none
    else
      return none

theorem declareLocal_eq (name typeName : String) (init : Option String) :
    declareLocal script name typeName init = (do
      let type ← variableType name typeName
      let value ← initialValue script init
      enterLocal name type value) := by
  cases init <;> rfl

/-- Stores this value in the variable of this type. -/
def updateLocal (target : String) (type : Option SemanticType)
    (value : Option (ExprRef × ResultKind)) : Checking (Option Instruction) := do
  match value, type with
  | some value, some type =>
    if ← assignable target type value then
      return some (.setLocal target value.1)
    else
      return none
  | _, _ => return none

theorem setLocal_eq (target source : String) :
    setLocal script target source = (do
      let type ← targetType target
      let value ← expression script source
      updateLocal target type value) := rfl

/-- Compares two expressions that are checked. -/
def compareOperands (c : Call) (comparison : Comparison) (description : Option String)
    (left right : Option (ExprRef × ResultKind)) : Checking (Option Condition) := do
  match left, right with
  | some (left, leftKind), some (right, rightKind) =>
    if comparison.comparable leftKind rightKind then
      return some ⟨comparison, left, right, description⟩
    else
      refuse (.incomparable comparison leftKind rightKind c.line)
  | _, _ => return none

theorem compare_eq (c : Call) (comparison : Comparison) (left right : String)
    (description : Option String) :
    compare script c comparison left right description = (do
      let left ← expression script left
      let right ← expression script right
      compareOperands c comparison description left right) := rfl

/-- The fault is neither that of an expression nor that of a lookup. -/
structure Plain (f : ScriptFault) : Prop where
  lookup? : f.lookup? = none
  translation? : f.translation? = none

/-- The check of a call goes by the form that the call has. A call of no form is refused; it has
nothing to declare and nothing to evaluate. -/
inductive CallSteps (script : QualifiedName) : Call → Checking (Option Instruction) → Prop
  | declareInput (name typeName : String) (line : Nat) :
    CallSteps script ⟨"DeclareInputVar", [name, typeName], line⟩ (declareInput name typeName)
  | declareLocal (name typeName : String) (line : Nat) :
    CallSteps script ⟨"DeclareLocalVar", [name, typeName], line⟩
      (declareLocal script name typeName none)
  | initLocal (name typeName text : String) (line : Nat) :
    CallSteps script ⟨"DeclareLocalVar", [name, typeName, text], line⟩
      (declareLocal script name typeName (some text))
  | setLocal (target text : String) (line : Nat) :
    CallSteps script ⟨"SetLocalVar", [target, text], line⟩ (setLocal script target text)
  | refused {c : Call} {f : ScriptFault} (hf : Plain f) (hdeclares : c.declaration? = none)
    (htexts : textsOfCall c = []) : CallSteps script c (refuse f)

theorem callSteps (script : QualifiedName) (c : Call) :
    CallSteps script c (callStatement script c) := by
  obtain ⟨name, args, line⟩ := c
  unfold callStatement
  split
  · next hname =>
    obtain rfl : name = "DeclareInputVar" := hname
    split
    · next name typeName hargs =>
      obtain rfl : args = [name, typeName] := hargs
      exact .declareInput name typeName line
    · next hargs =>
      refine .refused ⟨rfl, rfl⟩ (Call.declaration?_eq_none ?_ (by simp) (by simp)) rfl
      exact fun _ name type => hargs name type
  next hinput =>
  split
  · next hname =>
    obtain rfl : name = "DeclareLocalVar" := hname
    split
    · next name typeName hargs =>
      obtain rfl : args = [name, typeName] := hargs
      exact .declareLocal name typeName line
    · next name typeName text hargs =>
      obtain rfl : args = [name, typeName, text] := hargs
      exact .initLocal name typeName text line
    · next htwo hthree =>
      have hnone : ∀ name type text, args ≠ [name, type, text] := hthree
      refine .refused ⟨rfl, rfl⟩ (Call.declaration?_eq_none (by simp) ?_ fun _ => hnone)
        (textsOfCall_eq_nil (fun _ => hnone) (by simp))
      exact fun _ name type => htwo name type
  next hlocal =>
  split
  · next hname =>
    obtain rfl : name = "SetLocalVar" := hname
    split
    · next target text hargs =>
      obtain rfl : args = [target, text] := hargs
      exact .setLocal target text line
    · next hargs =>
      refine .refused ⟨rfl, rfl⟩ rfl (textsOfCall_eq_nil (by simp) ?_)
      exact fun _ target text => hargs target text
  next hset =>
  have hdeclares : Call.declaration? ⟨name, args, line⟩ = none :=
    Call.declaration?_eq_none (fun h => absurd h hinput) (fun h => absurd h hlocal)
      fun h => absurd h hlocal
  have htexts : textsOfCall ⟨name, args, line⟩ = [] :=
    textsOfCall_eq_nil (fun h => absurd h hlocal) fun h => absurd h hset
  split
  · exact .refused ⟨rfl, rfl⟩ hdeclares htexts
  · exact .refused ⟨rfl, rfl⟩ hdeclares htexts

/-- The check of a condition compares the two operands of a known comparison, or refuses the
call, which then has nothing to compare. -/
inductive ConditionSteps (script : QualifiedName) (c : Call) : Checking (Option Condition) → Prop
  | compared {comparison : Comparison} {left right : String} (description : Option String)
    (hname : c.name = comparison.callName)
    (hargs : c.args = left :: right :: description.toList) :
    ConditionSteps script c (compare script c comparison left right description)
  | refused {f : ScriptFault} (hf : Plain f) (htexts : c.comparedTexts = []) :
    ConditionSteps script c (refuse f)

theorem conditionSteps (script : QualifiedName) (c : Call) :
    ConditionSteps script c (condition script c) := by
  unfold condition
  dsimp only
  split
  · next hname =>
    split
    · next left right hargs => exact .compared none hname hargs
    · next left right description hargs => exact .compared (some description) hname hargs
    · next htwo hthree => exact .refused ⟨rfl, rfl⟩ (Call.comparedTexts_eq_nil htwo hthree)
  next hequal =>
  split
  · next hname =>
    split
    · next left right hargs => exact .compared none hname hargs
    · next left right description hargs => exact .compared (some description) hname hargs
    · next htwo hthree => exact .refused ⟨rfl, rfl⟩ (Call.comparedTexts_eq_nil htwo hthree)
  · next hless => exact .refused ⟨rfl, rfl⟩ (if_neg (not_or.mpr ⟨hequal, hless⟩))

/-- Steps that neither declare a variable nor translate an expression have the property, and
sequences have it when their parts do. -/
structure Sequential (P : (α : Type) → Checking α → Prop) : Prop where
  pure {α : Type} (a : α) : P α (Pure.pure a)
  bind {α β : Type} {x : Checking α} {f : α → Checking β} (h : P α x) (k : ∀ a, P β (f a)) :
    P β (x >>= f)
  get : P ScriptCheck MonadState.get
  fault (f : ScriptFault) (h : Plain f) : P Unit (ScriptCheck.fault f)
  recordType? (name : QualifiedName) : P (Option RecordType) (ScriptCheck.recordType? name)

/-- All elementary steps of the check have the property, and so do sequences. -/
structure Stepwise (P : (α : Type) → Checking α → Prop) : Prop extends Sequential P where
  declare (operation : VariableTable → TableOutcome) : P Bool (ScriptCheck.declare operation)
  note (p : InputParameter) : P PUnit (modify fun s => { s with manifest := s.manifest ++ [p] })
  expression (script : QualifiedName) (text : String) :
    P (Option (ExprRef × ResultKind)) (ScriptCheck.expression script text)

namespace Sequential

variable {P : (α : Type) → Checking α → Prop}

theorem refuse (h : Sequential P) {α : Type} (f : ScriptFault) (hf : Plain f) :
    P (Option α) (ScriptCheck.refuse f) :=
  h.bind (h.fault f hf) fun _ => h.pure none

theorem variableType (h : Sequential P) (name typeName : String) :
    P _ (ScriptCheck.variableType name typeName) := by
  unfold ScriptCheck.variableType
  split
  · exact h.refuse _ ⟨rfl, rfl⟩
  · split
    · refine h.bind (h.recordType? _) fun found => ?_
      cases found with
      | some t => exact h.pure _
      | none => exact h.refuse _ ⟨rfl, rfl⟩
    · exact h.pure _

theorem fieldPathType (h : Sequential P) (target : String) (type : SemanticType)
    (fields : List String) : P _ (ScriptCheck.fieldPathType target type fields) := by
  induction fields generalizing type with
  | nil => cases type <;> exact h.pure _
  | cons field fields ih =>
    cases type with
    | record name =>
      unfold ScriptCheck.fieldPathType
      refine h.bind (h.recordType? _) fun found => ?_
      split
      · exact ih _
      · exact h.refuse _ ⟨rfl, rfl⟩
    | primitive kind => exact h.refuse _ ⟨rfl, rfl⟩
    | array => exact h.refuse _ ⟨rfl, rfl⟩

theorem targetType (h : Sequential P) (target : String) :
    P _ (ScriptCheck.targetType target) := by
  unfold ScriptCheck.targetType
  dsimp only
  refine h.bind h.get fun s => ?_
  split
  · exact h.refuse _ ⟨rfl, rfl⟩
  · exact h.fieldPathType _ _ _

theorem assignable (h : Sequential P) (target : String) (type : SemanticType)
    (value : ExprRef × ResultKind) : P _ (ScriptCheck.assignable target type value) := by
  unfold ScriptCheck.assignable
  split
  · exact h.pure _
  · exact h.bind (h.fault _ ⟨rfl, rfl⟩) fun _ => h.pure _

theorem updateLocal (h : Sequential P) (target : String) (type : Option SemanticType)
    (value : Option (ExprRef × ResultKind)) : P _ (ScriptCheck.updateLocal target type value) := by
  cases value with
  | none => exact h.pure _
  | some value =>
    cases type with
    | none => exact h.pure _
    | some type =>
      refine h.bind (h.assignable _ _ _) fun fits => ?_
      cases fits <;> exact h.pure _

theorem compareOperands (h : Sequential P) (c : Call) (comparison : Comparison)
    (description : Option String) (left right : Option (ExprRef × ResultKind)) :
    P _ (ScriptCheck.compareOperands c comparison description left right) := by
  rcases left with _ | ⟨left, leftKind⟩
  · exact h.pure _
  · rcases right with _ | ⟨right, rightKind⟩
    · exact h.pure _
    · unfold ScriptCheck.compareOperands
      dsimp only
      split
      · exact h.pure _
      · exact h.refuse _ ⟨rfl, rfl⟩

end Sequential

namespace Stepwise

variable {P : (α : Type) → Checking α → Prop}

theorem declareInput (h : Stepwise P) (name typeName : String) :
    P _ (ScriptCheck.declareInput name typeName) := by
  unfold ScriptCheck.declareInput
  refine h.bind (h.variableType _ _) fun type => ?_
  cases type with
  | none => exact h.pure _
  | some type =>
    refine h.bind (h.declare _) fun declared => ?_
    cases declared with
    | false => exact h.pure _
    | true => exact h.bind (h.note _) fun _ => h.pure _

theorem initialValue (h : Stepwise P) (init : Option String) :
    P _ (ScriptCheck.initialValue script init) := by
  cases init with
  | none => exact h.pure _
  | some text => exact h.bind (h.expression _ text) fun _ => h.pure _

theorem enterLocal (h : Stepwise P) (name : String) (type : Option SemanticType)
    (value : Option (Option (ExprRef × ResultKind))) :
    P _ (ScriptCheck.enterLocal name type value) := by
  cases type with
  | none => exact h.pure _
  | some type =>
    refine h.bind (h.declare _) fun declared => ?_
    cases declared with
    | false => exact h.pure _
    | true =>
      rcases value with _ | _ | value
      · exact h.pure _
      · exact h.pure _
      · refine h.bind (h.assignable _ _ _) fun fits => ?_
        cases fits <;> exact h.pure _

theorem declareLocal (h : Stepwise P) (name typeName : String) (init : Option String) :
    P _ (ScriptCheck.declareLocal script name typeName init) := by
  rw [declareLocal_eq]
  refine h.bind (h.variableType _ _) fun type => ?_
  exact h.bind (h.initialValue init) fun value => h.enterLocal _ _ _

theorem setLocal (h : Stepwise P) (target source : String) :
    P _ (ScriptCheck.setLocal script target source) := by
  rw [setLocal_eq]
  refine h.bind (h.targetType _) fun type => ?_
  exact h.bind (h.expression _ _) fun value => h.updateLocal _ _ _

theorem callStatement (h : Stepwise P) (c : Call) :
    P _ (ScriptCheck.callStatement script c) := by
  have hsteps := callSteps script c
  generalize ScriptCheck.callStatement script c = x at hsteps
  cases hsteps with
  | declareInput => exact h.declareInput _ _
  | declareLocal => exact h.declareLocal _ _ _
  | initLocal => exact h.declareLocal _ _ _
  | setLocal => exact h.setLocal _ _
  | refused hf => exact h.refuse _ hf

theorem compare (h : Stepwise P) (c : Call) (comparison : Comparison) (left right : String)
    (description : Option String) :
    P _ (ScriptCheck.compare script c comparison left right description) := by
  rw [compare_eq]
  refine h.bind (h.expression _ _) fun left => ?_
  exact h.bind (h.expression _ _) fun right => h.compareOperands _ _ _ _ _

theorem condition (h : Stepwise P) (c : Call) : P _ (ScriptCheck.condition script c) := by
  have hsteps := conditionSteps script c
  generalize ScriptCheck.condition script c = x at hsteps
  cases hsteps with
  | compared => exact h.compare _ _ _ _ _
  | refused hf => exact h.refuse _ hf

mutual

theorem statement (h : Stepwise P) : ∀ s : Statement, P _ (ScriptCheck.statement script s)
  | .call c => by
    unfold ScriptCheck.statement
    exact h.callStatement c
  | .branch c thenBranch elseBranch => by
    unfold ScriptCheck.statement
    refine h.bind (h.condition c) fun condition => ?_
    refine h.bind (h.statements thenBranch) fun thenBranch => ?_
    exact h.bind (h.statements elseBranch) fun elseBranch => h.pure _

/-- The check of any statements has the property. -/
theorem statements (h : Stepwise P) :
    ∀ ss : List Statement, P _ (ScriptCheck.statements script ss)
  | [] => by
    unfold ScriptCheck.statements
    exact h.pure _
  | s :: rest => by
    unfold ScriptCheck.statements
    refine h.bind (h.statement s) fun first => ?_
    exact h.bind (h.statements rest) fun others => h.pure _

end

end Stepwise

end Scriptorium.ScriptCheck

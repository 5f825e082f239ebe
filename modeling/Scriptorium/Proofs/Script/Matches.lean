import Scriptorium.Proofs.Expression.Scope
import Scriptorium.Proofs.Expression.Tree
import Scriptorium.Script.Check

/-!
# Programs of statements

What the statements of a script and the instructions of its program have to do
with each other is told by the declarations alone, apart from the check. Each
statement yields one instruction; each expression site refers to a unit that
holds the translation of the site's own text against the declarations in front
of the site. Both sides of a branch declare into the one table, the first side
before the second.
-/

namespace Scriptorium

/-- A record type of this name is registered, if the type is one of records. -/
def SemanticType.Known (types : Registry) : SemanticType → Prop
  | .record name => ∃ t, types name = .ok (some t)
  | _ => True

mutual

/-- The inputs that an instruction declares, in the order in which they are written. -/
def Instruction.declaredInputs : Instruction → InputManifest
  | .declareInput name type => [⟨name, type⟩]
  | .branch _ thenBranch elseBranch =>
    Instruction.allDeclaredInputs thenBranch ++ Instruction.allDeclaredInputs elseBranch
  | _ => []

/-- The inputs that several instructions declare. -/
def Instruction.allDeclaredInputs : List Instruction → InputManifest
  | [] => []
  | i :: rest => i.declaredInputs ++ Instruction.allDeclaredInputs rest

end

namespace ScriptCheck

/-- The type of the local or field that an assignment is to. -/
def targetType? (types : Registry) (t : VariableTable) (target : String) : Option SemanticType :=
  let (head, fields) := Text.pieces '.' target
  (t.getLocal? head).bind fun v => Expression.slotType? types v.type fields

/-- Among the units is one that holds the translation of the text, of this kind. -/
def Site (types : Registry) (units : List PendingExpression) (t : VariableTable)
    (text : String) (ref : ExprRef) (kind : ResultKind) : Prop :=
  ∃ e ∈ units, e.source = text ∧ e.ref = ref ∧ e.kind = kind ∧
    (Expression.sentence t text).run types = .ok e.sentence

/-- The condition is the call's, with a unit for either side. -/
structure Tests (types : Registry) (units : List PendingExpression) (t : VariableTable)
    (c : Call) (condition : Condition) : Prop where
  name : c.name = condition.comparison.callName
  args : c.args =
    condition.left.source :: condition.right.source :: condition.description.toList
  sites : ∃ left right,
    Site types units t condition.left.source condition.left left ∧
    Site types units t condition.right.source condition.right right ∧
    condition.comparison.comparable left right = true

/-- The instructions are those of the statements, which lead from one table of declarations to
another. -/
inductive Matches (types : Registry) (units : List PendingExpression) :
    VariableTable → List Statement → List Instruction → VariableTable → Prop
  | nil {t : VariableTable} : Matches types units t [] [] t
  | declareInput {t t' : VariableTable} {name typeName : String} {line : Nat}
    {rest : List Statement} {is : List Instruction}
    (hname : Text.isIdentifier name.toList = true)
    (hknown : (SemanticType.ofTypeName typeName).Known types)
    (hfresh : t.namespace? name = none)
    (k : Matches types units (t.addInput name ⟨.ofTypeName typeName, .null⟩) rest is t') :
    Matches types units t (.call ⟨"DeclareInputVar", [name, typeName], line⟩ :: rest)
      (.declareInput name (.ofTypeName typeName) :: is) t'
  | declareLocal {t t' : VariableTable} {name typeName : String} {line : Nat}
    {rest : List Statement} {is : List Instruction}
    (hname : Text.isIdentifier name.toList = true)
    (hknown : (SemanticType.ofTypeName typeName).Known types)
    (hfresh : t.namespace? name = none)
    (k : Matches types units (t.setLocal name ⟨.ofTypeName typeName, .null⟩) rest is t') :
    Matches types units t (.call ⟨"DeclareLocalVar", [name, typeName], line⟩ :: rest)
      (.declareLocal name (.ofTypeName typeName) none :: is) t'
  | initLocal {t t' : VariableTable} {name typeName : String} {line : Nat} {ref : ExprRef}
    {kind : ResultKind} {rest : List Statement} {is : List Instruction}
    (hname : Text.isIdentifier name.toList = true)
    (hknown : (SemanticType.ofTypeName typeName).Known types)
    (hfresh : t.namespace? name = none)
    (hsite : Site types units t ref.source ref kind)
    (haccepts : (SemanticType.ofTypeName typeName).accepts kind = true)
    (k : Matches types units (t.setLocal name ⟨.ofTypeName typeName, .null⟩) rest is t') :
    Matches types units t
      (.call ⟨"DeclareLocalVar", [name, typeName, ref.source], line⟩ :: rest)
      (.declareLocal name (.ofTypeName typeName) (some ref) :: is) t'
  | setLocal {t t' : VariableTable} {target : String} {line : Nat} {ref : ExprRef}
    {kind : ResultKind} {type : SemanticType} {rest : List Statement} {is : List Instruction}
    (htarget : targetType? types t target = some type)
    (hsite : Site types units t ref.source ref kind)
    (haccepts : type.accepts kind = true)
    (k : Matches types units t rest is t') :
    Matches types units t (.call ⟨"SetLocalVar", [target, ref.source], line⟩ :: rest)
      (.setLocal target ref :: is) t'
  | branch {t t₁ t₂ t' : VariableTable} {c : Call} {condition : Condition}
    {thenBranch elseBranch rest : List Statement} {is₁ is₂ is : List Instruction}
    (hcondition : Tests types units t c condition)
    (hthen : Matches types units t thenBranch is₁ t₁)
    (helse : Matches types units t₁ elseBranch is₂ t₂)
    (k : Matches types units t₂ rest is t') :
    Matches types units t (.branch c thenBranch elseBranch :: rest)
      (.branch condition is₁ is₂ :: is) t'

namespace Matches

variable {types : Registry} {units : List PendingExpression} {t t' : VariableTable}

/-- Statements take no declaration away. -/
theorem within {ss : List Statement} {is : List Instruction} (h : Matches types units t ss is t') :
    t.Within t' := by
  induction h with
  | nil => exact .refl _
  | declareInput _ _ hfresh _ ih => exact (VariableTable.within_addInput hfresh _).trans ih
  | declareLocal _ _ hfresh _ ih => exact (VariableTable.within_setLocal hfresh _).trans ih
  | initLocal _ _ hfresh _ _ _ ih => exact (VariableTable.within_setLocal hfresh _).trans ih
  | setLocal _ _ _ _ ih => exact ih
  | branch _ _ _ _ ih₁ ih₂ ih => exact (ih₁.trans ih₂).trans ih

end Matches

end ScriptCheck

end Scriptorium

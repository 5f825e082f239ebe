import Scriptorium.Json.Number
import Scriptorium.Json.Tagged
import Scriptorium.Unit.Body

/-!
# Unit bodies as documents

The document of a unit body has a member for every field, in the order of their
declaration, and names qualified names by their text. Null stands for an absent
description or initial value, and also for a decimal that is not finite.
-/

namespace Scriptorium

open Json (tag tagged ofText ofMembers)

/-- The document of a qualified name. -/
def QualifiedName.toJson (n : QualifiedName) : Json := ofText n.text

/-- The document of a primitive type. -/
def PrimitiveKind.toJson (k : PrimitiveKind) : Json := tag k.name

/-- The document of a kind of result. -/
def ResultKind.toJson (k : ResultKind) : Json := tag k.name

/-- The document of a declared type. -/
def SemanticType.toJson : SemanticType → Json
  | .primitive k => k.toJson
  | .array => tag "Array"
  | .record name => tagged "Record" name.toJson

mutual

/-- The document of a value inside a unit. -/
def Value.encode : Value → Json
  | .null => tag "Null"
  | .integer n => tagged "Integer" (Json.ofInt64 n)
  | .decimal d => tagged "Decimal" (Json.ofDecimal d)
  | .boolean b => tagged "Boolean" (.boolean b)
  | .string s => tagged "String" (ofText s)
  | .array items => tagged "Array" (.array (Value.encodeItems items))
  | .record type fields =>
    tagged "Record" (ofMembers
      [("type_name", type.toJson), ("fields", .object (Value.encodeFields fields))])

/-- The documents of several values. -/
def Value.encodeItems : List Value → List Json
  | [] => []
  | v :: vs => Value.encode v :: Value.encodeItems vs

/-- The members for the fields of a record. -/
def Value.encodeFields : List (String × Value) → List (List Char × Json)
  | [] => []
  | (name, v) :: rest => (Json.escape name.toList, Value.encode v) :: Value.encodeFields rest

end

/-- The document of a step. -/
def Step.toJson : Step → Json
  | .field name => tagged "Field" (ofText name)
  | .index n => tagged "Index" (Json.ofNat n)

/-- The document of an access. -/
def Access.toJson (a : Access) : Json :=
  ofMembers [("variable", ofText a.head), ("steps", .array (a.steps.map Step.toJson))]

/-- The name of an operation in documents. -/
def BinaryOp.name : BinaryOp → String
  | .add => "Add"
  | .sub => "Sub"
  | .mul => "Mul"
  | .div => "Div"
  | .and => "And"
  | .or => "Or"

/-- The document of an expression tree. -/
def Node.toJson : Node → Json
  | .literal v => tagged "Literal" v.encode
  | .read access kind =>
    tagged "Read" (ofMembers [("access", access.toJson), ("kind", kind.toJson)])
  | .reference access => tagged "Reference" access.toJson
  | .null => tag "Null"
  | .binary op lhs rhs =>
    tagged "Binary" (ofMembers [("op", tag op.name), ("lhs", lhs.toJson), ("rhs", rhs.toJson)])

/-- The document of an expression. -/
def TargetExpr.toJson (e : TargetExpr) : Json :=
  ofMembers [("kind", e.kind.toJson), ("root", e.root.toJson)]

/-- The document of a reference to an expression. -/
def ExprRef.toJson (r : ExprRef) : Json :=
  ofMembers [("name", r.name.toJson), ("source", ofText r.source)]

/-- The name of a comparison in documents. -/
def Comparison.name : Comparison → String
  | .equal => "Equal"
  | .lessOrEqual => "LessOrEqual"

/-- The document of what may be absent. -/
def Json.ofOption {α : Type} (f : α → Json) : Option α → Json
  | none => .null
  | some a => f a

/-- The document of a condition. -/
def Condition.toJson (c : Condition) : Json :=
  ofMembers [("comparison", tag c.comparison.name), ("left", c.left.toJson),
    ("right", c.right.toJson), ("description", Json.ofOption ofText c.description)]

mutual

/-- The document of an instruction. -/
def Instruction.toJson : Instruction → Json
  | .declareInput name type =>
    tagged "DeclareInput" (ofMembers [("name", ofText name), ("semantic_type", type.toJson)])
  | .declareLocal name type init =>
    tagged "DeclareLocal" (ofMembers [("name", ofText name), ("semantic_type", type.toJson),
      ("init", Json.ofOption ExprRef.toJson init)])
  | .setLocal target value =>
    tagged "SetLocal" (ofMembers [("target", ofText target), ("value", value.toJson)])
  | .branch condition thenBranch elseBranch =>
    tagged "Branch" (ofMembers [("condition", condition.toJson),
      ("then_branch", .array (Instruction.toJsonItems thenBranch)),
      ("else_branch", .array (Instruction.toJsonItems elseBranch))])

/-- The documents of several instructions. -/
def Instruction.toJsonItems : List Instruction → List Json
  | [] => []
  | i :: rest => Instruction.toJson i :: Instruction.toJsonItems rest

end

/-- The document of an input. -/
def InputParameter.toJson (p : InputParameter) : Json :=
  ofMembers [("name", ofText p.name), ("semantic_type", p.type.toJson)]

/-- The document of a script. -/
def ScriptProgram.toJson (p : ScriptProgram) : Json :=
  ofMembers [("inputs", .array (p.inputs.map InputParameter.toJson)),
    ("statements", .array (Instruction.toJsonItems p.statements))]

/-- The document of a field. -/
def FieldDefinition.toJson (f : FieldDefinition) : Json :=
  ofMembers [("name", ofText f.name), ("field_type", f.type.toJson)]

/-- The document of a record type. -/
def RecordType.toJson (t : RecordType) : Json :=
  ofMembers [("name", t.name.toJson), ("fields", .array (t.fields.map FieldDefinition.toJson))]

/-- The document of a unit body. -/
def UnitBody.toJson : UnitBody → Json
  | .expression e => tagged "Expression" e.toJson
  | .script p => tagged "Script" p.toJson
  | .record t => tagged "Record" t.toJson

end Scriptorium

import Scriptorium.Json.Reader
import Scriptorium.Unit.Encode

/-!
# Documents as unit bodies

Each reader takes the depth to which containers may still be nested. A
description and an initial value may be missing or null; everything else must
be there. The depth also bounds the recursion: the parts of a nested value,
expression or statement lie deeper than the whole.
-/

namespace Scriptorium

open Json (Alternative alternative? fields? items? oneOf? text?)

/-- The qualified name that a document spells. -/
def QualifiedName.ofJson? (j : Json) : Option QualifiedName := (text? j).bind parse?

/-- The primitive type that a document spells. -/
def PrimitiveKind.ofJson? : Nat → Json → Option PrimitiveKind :=
  oneOf? <| [PrimitiveKind.integer, .decimal, .boolean, .string].map fun k => (k.name, k)

/-- The kind of result that a document spells. -/
def ResultKind.ofJson? : Nat → Json → Option ResultKind :=
  oneOf? <| ResultKind.all.map fun k => (k.name, k)

/-- The declared type that a document spells. -/
def SemanticType.ofJson? (depth : Nat) (j : Json) : Option SemanticType := do
  match ← alternative? depth j with
  | .content "Record" name _ => return .record (← QualifiedName.ofJson? name)
  | a =>
    let n ← a.tag?
    [SemanticType.primitive .integer, .primitive .decimal, .primitive .boolean,
      .primitive .string, .array].find? (·.text = n)

/-- What may be absent: a missing member or null. -/
def Json.option? {α : Type} (f : Json → Option α) : Option Json → Option (Option α)
  | none => some none
  | some .null => some none
  | some j => (f j).map some

/-- The members of an object with texts as names and values read by `f`. -/
def Json.dictionary? {α : Type} (f : Json → Option α) :
    List (List Char × Json) → Option (List (String × α))
  | [] => some []
  | (key, j) :: rest => do
    let name ← Json.unescape? key
    let a ← f j
    return (String.ofList name, a) :: (← dictionary? f rest)

/-- The value that an alternative spells. `item` reads the items of an array and `field` the
fields of a record, where the depth that is left admits them. -/
def Value.ofAlternative? (item field : Option (Json → Option Value)) :
    Alternative → Option Value
  | .content "Integer" j _ => return .integer (← j.int64?)
  | .content "Decimal" j _ => return .decimal (← j.decimal?)
  | .content "Boolean" j _ => return .boolean (← j.boolean?)
  | .content "String" j _ => return .string (← text? j)
  | .content "Array" (.array items) _ => return .array (← items.mapM (← item))
  | .content "Record" j inner => do
    match ← fields? ["type_name", "fields"] inner j with
    | ([some type, some (.object members)], _) =>
      let type ← QualifiedName.ofJson? type
      return .record type (Entries.ofList (← Json.dictionary? (← field) members))
    | _ => none
  | a => if a.tag? = some "Null" then some .null else none

/-- The value inside a unit that a document spells. -/
def Value.decode? : Nat → Json → Option Value
  | depth + 3, j =>
    (alternative? (depth + 3) j).bind
      (ofAlternative? (some (decode? (depth + 1))) (some (decode? depth)))
  | 2, j => (alternative? 2 j).bind (ofAlternative? (some (decode? 0)) none)
  | depth, j => (alternative? depth j).bind (ofAlternative? none none)

/-- The step that a document spells. -/
def Step.ofJson? (depth : Nat) (j : Json) : Option Step := do
  match ← alternative? depth j with
  | .content "Field" j _ => return .field (← text? j)
  | .content "Index" j _ => return .index (← j.nat? Json.wordBound)
  | _ => none

/-- The access that a document spells. -/
def Access.ofJson? (depth : Nat) (j : Json) : Option Access := do
  match ← fields? ["variable", "steps"] depth j with
  | ([some head, some steps], depth) =>
    let head ← text? head
    let (steps, depth) ← items? depth steps
    return ⟨head, ← steps.mapM (Step.ofJson? depth)⟩
  | _ => none

/-- The operation that a document spells. -/
def BinaryOp.ofJson? : Nat → Json → Option BinaryOp :=
  oneOf? <| [BinaryOp.add, .sub, .mul, .div, .and, .or].map fun op => (op.name, op)

/-- The expression tree that a document spells. -/
def Node.ofJson? (depth : Nat) (j : Json) : Option Node := do
  match ← alternative? depth j with
  | .content "Literal" j inner => return .literal (← Value.decode? inner j)
  | .content "Read" j inner =>
    match ← fields? ["access", "kind"] inner j with
    | ([some access, some kind], inner) =>
      return .read (← Access.ofJson? inner access) (← PrimitiveKind.ofJson? inner kind)
    | _ => none
  | .content "Reference" j inner => return .reference (← Access.ofJson? inner j)
  | .content "Binary" j inner =>
    match ← fields? ["op", "lhs", "rhs"] inner j with
    | ([some op, some lhs, some rhs], inner) =>
      let op ← BinaryOp.ofJson? inner op
      match depth with
      | depth + 2 => return .binary op (← Node.ofJson? depth lhs) (← Node.ofJson? depth rhs)
      | _ => none
    | _ => none
  | a => if a.tag? = some "Null" then some .null else none

/-- The expression that a document spells. -/
def TargetExpr.ofJson? (depth : Nat) (j : Json) : Option TargetExpr := do
  match ← fields? ["kind", "root"] depth j with
  | ([some kind, some root], depth) =>
    return ⟨← ResultKind.ofJson? depth kind, ← Node.ofJson? depth root⟩
  | _ => none

/-- The reference to an expression that a document spells. -/
def ExprRef.ofJson? (depth : Nat) (j : Json) : Option ExprRef := do
  match ← fields? ["name", "source"] depth j with
  | ([some name, some source], _) => return ⟨← QualifiedName.ofJson? name, ← text? source⟩
  | _ => none

/-- The comparison that a document spells. -/
def Comparison.ofJson? : Nat → Json → Option Comparison :=
  oneOf? <| [Comparison.equal, .lessOrEqual].map fun c => (c.name, c)

/-- The condition that a document spells. -/
def Condition.ofJson? (depth : Nat) (j : Json) : Option Condition := do
  match ← fields? ["comparison", "left", "right", "description"] depth j with
  | ([some comparison, some left, some right, description], depth) =>
    return {
      comparison := ← Comparison.ofJson? depth comparison
      left := ← ExprRef.ofJson? depth left
      right := ← ExprRef.ofJson? depth right
      description := ← Json.option? text? description }
  | _ => none

/-- The instruction that a document spells. -/
def Instruction.ofJson? (depth : Nat) (j : Json) : Option Instruction := do
  match ← alternative? depth j with
  | .content "DeclareInput" j inner =>
    match ← fields? ["name", "semantic_type"] inner j with
    | ([some name, some type], inner) =>
      return .declareInput (← text? name) (← SemanticType.ofJson? inner type)
    | _ => none
  | .content "DeclareLocal" j inner =>
    match ← fields? ["name", "semantic_type", "init"] inner j with
    | ([some name, some type, init], inner) =>
      return .declareLocal (← text? name) (← SemanticType.ofJson? inner type)
        (← Json.option? (ExprRef.ofJson? inner) init)
    | _ => none
  | .content "SetLocal" j inner =>
    match ← fields? ["target", "value"] inner j with
    | ([some target, some value], inner) =>
      return .setLocal (← text? target) (← ExprRef.ofJson? inner value)
    | _ => none
  | .content "Branch" j inner =>
    match ← fields? ["condition", "then_branch", "else_branch"] inner j with
    | ([some condition, some (.array thenBranch), some (.array elseBranch)], inner) =>
      let condition ← Condition.ofJson? inner condition
      match depth with
      | depth + 3 =>
        return .branch condition (← thenBranch.mapM (Instruction.ofJson? depth))
          (← elseBranch.mapM (Instruction.ofJson? depth))
      | _ => none
    | _ => none
  | _ => none

/-- The input that a document spells. -/
def InputParameter.ofJson? (depth : Nat) (j : Json) : Option InputParameter := do
  match ← fields? ["name", "semantic_type"] depth j with
  | ([some name, some type], depth) =>
    return ⟨← text? name, ← SemanticType.ofJson? depth type⟩
  | _ => none

/-- The script that a document spells. -/
def ScriptProgram.ofJson? (depth : Nat) (j : Json) : Option ScriptProgram := do
  match ← fields? ["inputs", "statements"] depth j with
  | ([some inputs, some statements], depth) =>
    let (inputs, inner) ← items? depth inputs
    let (statements, _) ← items? depth statements
    return ⟨← inputs.mapM (InputParameter.ofJson? inner),
      ← statements.mapM (Instruction.ofJson? inner)⟩
  | _ => none

/-- The field that a document spells. -/
def FieldDefinition.ofJson? (depth : Nat) (j : Json) : Option FieldDefinition := do
  match ← fields? ["name", "field_type"] depth j with
  | ([some name, some type], depth) =>
    return ⟨← text? name, ← SemanticType.ofJson? depth type⟩
  | _ => none

/-- The record type that a document spells. -/
def RecordType.ofJson? (depth : Nat) (j : Json) : Option RecordType := do
  match ← fields? ["name", "fields"] depth j with
  | ([some name, some fields], depth) =>
    let (fields, depth) ← items? depth fields
    return ⟨← QualifiedName.ofJson? name, ← fields.mapM (FieldDefinition.ofJson? depth)⟩
  | _ => none

/-- The unit body that a document spells. -/
def UnitBody.ofJson? (depth : Nat) (j : Json) : Option UnitBody := do
  match ← alternative? depth j with
  | .content "Expression" j depth => return .expression (← TargetExpr.ofJson? depth j)
  | .content "Script" j depth => return .script (← ScriptProgram.ofJson? depth j)
  | .content "Record" j depth => return .record (← RecordType.ofJson? depth j)
  | _ => none

end Scriptorium

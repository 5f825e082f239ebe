import Scriptorium.Name.Basic

/-!
# Types of variables and kinds of results

A variable or record field has one of the four primitive types, or holds an
array, or a record of a named type. An expression computes a primitive value,
refers to a record, an array or an element as it stands, or is null.
-/

namespace Scriptorium

/-- The types that expressions compute with. -/
inductive PrimitiveKind where
  | integer
  | decimal
  | boolean
  | string
  deriving DecidableEq, Repr

/-- The declared type of a variable or field. -/
inductive SemanticType where
  | primitive (kind : PrimitiveKind)
  | array
  | record (name : QualifiedName)
  deriving DecidableEq, Repr

/-- What an expression yields. -/
inductive ResultKind where
  | primitive (kind : PrimitiveKind)
  | reference
  | null
  deriving DecidableEq, Repr

namespace PrimitiveKind

/-- The type's name. -/
def name : PrimitiveKind → String
  | .integer => "Integer"
  | .decimal => "Decimal"
  | .boolean => "Boolean"
  | .string => "String"

/-- The word for this type in target code. -/
def accessor : PrimitiveKind → String
  | .integer => "int"
  | .decimal => "dec"
  | .boolean => "bool"
  | .string => "str"

/-- The symbols that may stand between two values of this type. -/
def operands : PrimitiveKind → List String
  | .integer | .decimal => ["+", "-", "*", "/"]
  | .boolean => ["&&", "||"]
  | .string => ["+"]

end PrimitiveKind

namespace ResultKind

/-- The kind's name. -/
def name : ResultKind → String
  | .primitive k => k.name
  | .reference => "Reference"
  | .null => "Null"

/-- All kinds, the primitive ones first. -/
def all : List ResultKind :=
  [.primitive .integer, .primitive .decimal, .primitive .boolean, .primitive .string,
    .reference, .null]

/-- The kind of an integer or a decimal. -/
def isNumeric : ResultKind → Bool
  | .primitive .integer | .primitive .decimal => true
  | _ => false

end ResultKind

namespace SemanticType

/-- The type that a type name denotes. A name that denotes no other type is taken for the
name of a record type. -/
def ofTypeName (name : String) : SemanticType :=
  match Text.trimmed name with
  | "Integer" | "Number" => .primitive .integer
  | "Decimal" => .primitive .decimal
  | "Boolean" => .primitive .boolean
  | "String" => .primitive .string
  | "Array" => .array
  | other => .record (QualifiedName.record other)

/-- The primitive type, if it is one. -/
def primitive? : SemanticType → Option PrimitiveKind
  | .primitive k => some k
  | _ => none

/-- The type's name as a person writes it. -/
def text : SemanticType → String
  | .primitive k => k.name
  | .array => "Array"
  | .record name => name.humanName

/-- A result of this kind may be stored in a slot of this type. Null fits everywhere, an
integer fits a decimal, and a reference fits anything that is not primitive. -/
def accepts : SemanticType → ResultKind → Bool
  | _, .null => true
  | .primitive .decimal, .primitive .integer => true
  | .primitive t, .primitive k => t = k
  | .primitive _, .reference => false
  | .array, .reference => true
  | .array, .primitive _ => false
  | .record _, .reference => true
  | .record _, .primitive _ => false

/-- The kind of an expression that reads a slot of this type. -/
def resultKind : SemanticType → ResultKind
  | .primitive k => .primitive k
  | .array | .record _ => .reference

end SemanticType

end Scriptorium

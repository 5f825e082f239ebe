import Scriptorium.Value.Basic

/-!
# Record types

A record type lists the fields of its records with their types, in the order in
which they were written. A fresh record has every field, unassigned.
-/

namespace Scriptorium

/-- One field of a record type. -/
structure FieldDefinition where
  name : String
  type : SemanticType
  deriving DecidableEq, Repr

/-- The fields of the records of one type. -/
structure RecordType where
  name : QualifiedName
  fields : List FieldDefinition
  deriving DecidableEq, Repr

namespace RecordType

/-- The field with this name. -/
def field? (t : RecordType) (name : String) : Option FieldDefinition :=
  t.fields.find? (·.name = name)

/-- The fields of a fresh record, in the order of their names. -/
def freshFields (t : RecordType) : List (String × Value) :=
  Entries.ofList (t.fields.map fun f => (f.name, Value.null))

/-- A record of this type with every field unassigned. -/
def instantiate (t : RecordType) : Value := .record t.name t.freshFields

end RecordType

end Scriptorium

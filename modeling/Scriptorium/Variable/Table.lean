import Scriptorium.Record.Inquiry
import Scriptorium.Text.Split

/-!
# Variable tables

One run of a script has one table. Inputs and locals live in two disjoint
namespaces; a name is declared once, in one of them, for the life of the table.
Input declarations take the queued values in order, and an input is never
assigned again. A local is updated as a whole or along a path of record fields,
where records that are still missing on the way are created.

Operations that can fail half-way return the table as they leave it together
with the outcome: a value taken from the queue is gone even when it does not
belong to the declared type, and records created on the way to a failing field
remain.
-/

namespace Scriptorium

/-- The two disjoint sets of variables of a table. -/
inductive Namespace where
  | input
  | local
  deriving DecidableEq, Repr

/-- The namespace as messages name it. -/
def Namespace.name : Namespace → String
  | .input => "Input"
  | .local => "Local"

/-- A declared variable. -/
structure Variable where
  type : SemanticType
  value : Value
  deriving Repr

/-- Why a value cannot be stored along a path of fields. -/
inductive PathFault where
  | notARecordType (type : SemanticType)
  | unknownRecordType (type : SemanticType)
  | notARecord (value : Value)
  | noSuchField (type : SemanticType) (field : String)
  deriving Repr

/-- The reason as messages give it. -/
def PathFault.message : PathFault → String
  | .notARecordType type => s!"[{type.text}] is not a record type"
  | .unknownRecordType type => s!"record type [{type.text}] is unknown"
  | .notARecord value => s!"value [{value}] is not a record"
  | .noSuchField type field => s!"record type [{type.text}] has no field [{field}]"

/-- Why a table operation failed. -/
inductive VariableError where
  | alreadyDeclared (name : String) (space : Namespace)
  | notDeclared (name : String)
  | missingInput (name : String)
  | invalidValue (name : String) (cause : CoercionError)
  | invalidPath (path : String) (fault : PathFault)
  | typeLookup (path : String) (cause : RepositoryError)
  deriving Repr

namespace VariableError

/-- The message of a failed table operation. -/
def message : VariableError → String
  | .alreadyDeclared name space =>
    s!"{space.name} variable with name [{name}] is already declared"
  | .notDeclared name => s!"Local variable with name [{name}] is not declared"
  | .missingInput name => s!"No input value is left for input variable [{name}]"
  | .invalidValue name cause => s!"Variable [{name}] cannot hold the value: {cause.message}"
  | .invalidPath path fault => s!"Cannot assign [{path}]: {fault.message}"
  | .typeLookup path cause => s!"Cannot assign [{path}]: {cause.message}"

/-- The messages of the failures underneath, the nearest first. -/
def causes : VariableError → List String
  | .invalidValue _ cause => [cause.message]
  | .typeLookup _ cause => [cause.message]
  | _ => []

end VariableError

/-- The variables of one run, and the input values not yet taken. -/
structure VariableTable where
  inputs : Dictionary String Variable
  locals : Dictionary String Variable
  pending : List Value

/-- The outcome of a table operation and the table it leaves. -/
abbrev TableOutcome := Except VariableError Unit × VariableTable

namespace VariableTable

/-- A table without variables that has these values queued for its inputs. -/
def withInputs (values : List Value) : VariableTable := ⟨∅, ∅, values⟩

/-- A table without variables and without queued values. -/
def empty : VariableTable := withInputs []

/-- The namespace that declares the name. -/
def namespace? (t : VariableTable) (name : String) : Option Namespace :=
  if t.inputs.contains name then some .input
  else if t.locals.contains name then some .local
  else none

/-- The variable with this name, in either namespace. -/
def get? (t : VariableTable) (name : String) : Option Variable :=
  (t.locals.get? name).or (t.inputs.get? name)

/-- The local with this name. -/
def getLocal? (t : VariableTable) (name : String) : Option Variable := t.locals.get? name

/-- The values of the locals by name. -/
def localValues (t : VariableTable) : Dictionary String Value :=
  t.locals.mapValues fun _ v => v.value

/-- The values of the inputs by name. -/
def inputValues (t : VariableTable) : Dictionary String Value :=
  t.inputs.mapValues fun _ v => v.value

/-- Declares an input without a value. -/
def declareInput (t : VariableTable) (name : String) (type : SemanticType) : TableOutcome :=
  match t.namespace? name with
  | some space => (.error (.alreadyDeclared name space), t)
  | none => (.ok (), { t with inputs := t.inputs.insert name ⟨type, .null⟩ })

/-- Declares a local to which nothing is assigned yet. -/
def declareLocal (t : VariableTable) (name : String) (type : SemanticType) : TableOutcome :=
  match t.namespace? name with
  | some space => (.error (.alreadyDeclared name space), t)
  | none => (.ok (), { t with locals := t.locals.insert name ⟨type, .null⟩ })

/-- Declares an input and binds the next queued value to it, coerced to the type. -/
def bindInput (t : VariableTable) (name : String) (type : SemanticType) : TableOutcome :=
  match t.namespace? name with
  | some space => (.error (.alreadyDeclared name space), t)
  | none =>
    match t.pending with
    | [] => (.error (.missingInput name), t)
    | raw :: pending =>
      match type.coerce raw with
      | .error cause => (.error (.invalidValue name cause), { t with pending })
      | .ok value => (.ok (), { t with inputs := t.inputs.insert name ⟨type, value⟩, pending })

/-- Updates a local, coercing the value to the declared type. -/
def assign (t : VariableTable) (name : String) (value : Value) : TableOutcome :=
  match t.locals.get? name with
  | none => (.error (.notDeclared name), t)
  | some v =>
    match v.type.coerce value with
    | .error cause => (.error (.invalidValue name cause), t)
    | .ok value => (.ok (), { t with locals := t.locals.insert name { v with value } })

/-- A record in which a field is about to be updated. -/
structure OpenRecord where
  type : QualifiedName
  fields : List (String × Value)
  definition : FieldDefinition

namespace OpenRecord

/-- The value of the field, null when the record lacks it. -/
def entry (r : OpenRecord) : Value := (Entries.get? r.definition.name r.fields).getD .null

/-- The record with this value in the field. -/
def close (r : OpenRecord) (v : Value) : Value :=
  .record r.type (Entries.insert r.definition.name v r.fields)

end OpenRecord

/-- Opens the record in a slot at a field, creating the record when the slot is null. On
failure the slot is yielded as it is left. -/
def openField (path : String) (slot : Value) (slotType : SemanticType) (field : String) :
    Inquiry (Except (VariableError × Value) OpenRecord) :=
  match slotType with
  | .record typeName => do
    match ← Inquiry.lookup typeName with
    | .error cause => return .error (.typeLookup path cause, slot)
    | .ok none => return .error (.invalidPath path (.unknownRecordType slotType), slot)
    | .ok (some recordType) =>
      match if slot.isNull then recordType.instantiate else slot with
      | .record type fields =>
        match recordType.field? field with
        | none =>
          return .error (.invalidPath path (.noSuchField slotType field), .record type fields)
        | some definition => return .ok ⟨type, fields, definition⟩
      | other => return .error (.invalidPath path (.notARecord other), other)
  | _ => return .error (.invalidPath path (.notARecordType slotType), slot)

/-- Stores a value in a field of the record in a slot, or in a field further down the path.
Yields the outcome and the slot as it is left. -/
def assignField (path : String) (value slot : Value) (slotType : SemanticType) :
    (field : String) → List String → Inquiry (Except VariableError Unit × Value)
  | field, [] => do
    match ← openField path slot slotType field with
    | .error (e, slot) => return (.error e, slot)
    | .ok r =>
      match r.definition.type.coerce value with
      | .error cause => return (.error (.invalidValue path cause), r.close r.entry)
      | .ok value => return (.ok (), r.close value)
  | field, next :: rest => do
    match ← openField path slot slotType field with
    | .error (e, slot) => return (.error e, slot)
    | .ok r =>
      let (outcome, entry) ← assignField path value r.entry r.definition.type next rest
      return (outcome, r.close entry)

/-- Updates a local, or a field of a record that it holds when the path has points. -/
def assignPath (t : VariableTable) (path : String) (value : Value) : Inquiry TableOutcome :=
  match Text.pieces '.' path with
  | (head, []) => return t.assign head value
  | (head, field :: rest) =>
    match t.locals.get? head with
    | none => return (.error (.notDeclared head), t)
    | some v => do
      let (outcome, value) ← assignField path value v.value v.type field rest
      return (outcome, { t with locals := t.locals.insert head { v with value } })

end VariableTable

end Scriptorium

import Scriptorium.Script.Check
import Scriptorium.Target.Parser
import Scriptorium.Unit.Payload

/-!
# Compilation

Target code, expressions, scripts and record types are compiled into units: a
payload together with the source it came from. A script yields a unit for itself
and one for each distinct expression. A failed lookup of a record type makes
the whole compilation fail as a lookup, whatever else is wrong.

The fields of a record type are written as fragments between semicolons, each a
type and a name; a field may have the type that is being compiled.
-/

namespace Scriptorium

/-- Why a compilation or the loading of a unit failed. -/
inductive CompileError where
  | invalidName (name : QualifiedName)
  | script (name : String) (faults : List ScriptFault)
  | badScript (name : String) (place : Grammar.Position)
  | invalidField (name fragment : String)
  | unknownFieldType (name field type : String)
  | duplicateField (name field : String)
  | malformedTarget (name : QualifiedName) (cause : Target.Malformed)
  | expression (source : String) (cause : TranslationError)
  | payload (name : QualifiedName) (fault : PayloadFault)
  | typeLookup (name : String) (cause : RepositoryError)
  deriving Repr

namespace CompileError

/-- The message of a failed compilation. -/
def message : CompileError → String
  | .invalidName name => s!"Qualified name [{name}] has an empty segment"
  | .script name faults =>
    s!"Compilation of the script [{name}] failed\n" ++
      "\n".intercalate (faults.map (·.message))
  | .badScript name place =>
    s!"Compilation of the script [{name}] failed\n" ++ place.message
  | .invalidField name fragment =>
    s!"Compilation of record type [{name}] failed. Expression [{fragment}] is invalid"
  | .unknownFieldType name field type =>
    s!"Compilation of record type [{name}] failed. Field [{field}] has unknown type [{type}]"
  | .duplicateField name field =>
    s!"Compilation of record type [{name}] failed. Field [{field}] is declared twice"
  | .malformedTarget name cause => s!"Malformed target code for [{name}]: {cause.message}"
  | .expression source cause => s!"Could not parse expression [{source}]: {cause.message}"
  | .payload name fault => s!"Cannot load compiled unit [{name}]: {fault.message}"
  | .typeLookup name cause =>
    s!"Compilation of [{name}] failed. Record types could not be read: {cause.message}"

/-- The messages of the failures underneath, the nearest first. -/
def causes : CompileError → List String
  | .expression _ cause => cause.message :: cause.causes
  | .typeLookup _ cause => [cause.message]
  | _ => []

end CompileError

/-- A unit ready to be stored. -/
structure CompiledUnit where
  name : QualifiedName
  payload : String
  source : Option String
  inputs : Option InputManifest
  deriving Repr

namespace CompiledUnit

/-- The unit of a body. -/
def ofBody (name : QualifiedName) (body : UnitBody) (source : Option String)
    (inputs : Option InputManifest) : CompiledUnit :=
  ⟨name, Payload.encode body, source, inputs⟩

/-- The digest of the source. -/
def sourceDigest (u : CompiledUnit) : Option String := u.source.map Digest.ofText

/-- The body of the unit, read back from its payload. -/
def load (u : CompiledUnit) : Except CompileError UnitBody :=
  (Payload.load u.name u.payload).mapError (.payload u.name)

end CompiledUnit

/-- A compiled script with its expressions. -/
structure ScriptCompilation where
  script : CompiledUnit
  inputs : InputManifest
  expressions : List CompiledUnit
  deriving Repr

/-- The script's unit and those of its expressions. -/
def ScriptCompilation.units (c : ScriptCompilation) : List CompiledUnit :=
  c.script :: c.expressions

namespace Compile

/-- Refuses a name that is not well formed. -/
def checkName (name : QualifiedName) : Except CompileError Unit :=
  if name.isWellFormed then .ok () else .error (.invalidName name)

/-- The unit of a piece of target code. -/
def targetUnit (name : QualifiedName) (text : String) (source : Option String) :
    Except CompileError CompiledUnit :=
  match Target.parseTarget text.toList with
  | .error cause => .error (.malformedTarget name cause)
  | .ok expr => .ok (.ofBody name (.expression expr) source none)

/-- Compiles target code. -/
def target (name : QualifiedName) (text : String) : Except CompileError CompiledUnit := do
  checkName name
  targetUnit name text none

/-- Compiles an expression over the declared variables. -/
def expression (name : QualifiedName) (source : String) (table : VariableTable) :
    Inquiry (Except CompileError CompiledUnit) :=
  match checkName name with
  | .error e => return .error e
  | .ok () => do
    match ← Expression.translate table source with
    | .ok code => return targetUnit name code.text (some source)
    | .error cause =>
      match cause.lookup? with
      | some failure => return .error (.typeLookup name.humanName failure)
      | none => return .error (.expression source cause)

/-- The unit of a checked expression. -/
def pendingUnit (e : PendingExpression) : Except CompileError CompiledUnit :=
  targetUnit e.name e.sentence.targetCode.text (some e.source)

/-- The units of a checked script. -/
def checkedUnits (name : QualifiedName) (body : String) (checked : CheckedScript) :
    Except CompileError ScriptCompilation := do
  let expressions ← checked.expressions.mapM pendingUnit
  let inputs := checked.program.inputs
  return ⟨.ofBody name (.script checked.program) (some body) (some inputs), inputs, expressions⟩

/-- The error of a script with faults. -/
def faultsError (name : QualifiedName) (faults : List ScriptFault) : CompileError :=
  match faults.findSome? (·.lookup?) with
  | some cause => .typeLookup name.humanName cause
  | none => .script name.humanName faults

/-- Compiles a script with all its expressions. -/
def script (name : QualifiedName) (body : String) :
    Inquiry (Except CompileError ScriptCompilation) :=
  match checkName name with
  | .error e => return .error e
  | .ok () =>
    match Script.parseScript body.toList with
    | .error place => return .error (.badScript name.humanName place)
    | .ok statements => do
      match ← ScriptCheck.check name statements with
      | .error faults => return .error (faultsError name faults)
      | .ok checked => return checkedUnits name body checked

/-- The fragments of a field list that are not blank, without the blanks around them. -/
def fragments (spec : String) : List (List Char) :=
  let (first, others) := Text.splitAt ';' spec.toList
  ((first :: others).map Text.trim).filter fun f => !f.isEmpty

/-- The type that a fragment gives to a field, when there is such a type. -/
def fieldType (name : QualifiedName) (typeName : String) :
    Inquiry (Except RepositoryError (Option SemanticType)) :=
  match SemanticType.ofTypeName typeName with
  | .record record =>
    if record = name then return .ok (some (.record record))
    else do
      match ← Inquiry.lookup record with
      | .error cause => return .error cause
      | .ok found => return .ok (found.map fun _ => .record record)
  | type => return .ok (some type)

/-- The field that a fragment declares after the fields before it. -/
def field (name : QualifiedName) (fields : List FieldDefinition) (fragment : List Char) :
    Inquiry (Except CompileError FieldDefinition) :=
  let human := name.humanName
  match Text.words fragment with
  | [typeName, fieldName] =>
    if !Text.isIdentifier fieldName then
      return .error (.invalidField human (String.ofList fragment))
    else do
      let typeName := String.ofList typeName
      let fieldName := String.ofList fieldName
      match ← fieldType name typeName with
      | .error cause => return .error (.typeLookup human cause)
      | .ok none => return .error (.unknownFieldType human fieldName typeName)
      | .ok (some type) =>
        if fields.any (·.name = fieldName) then
          return .error (.duplicateField human fieldName)
        else return .ok ⟨fieldName, type⟩
  | _ => return .error (.invalidField human (String.ofList fragment))

/-- The fields that fragments declare after the fields before them. -/
def fields (name : QualifiedName) (before : List FieldDefinition) :
    List (List Char) → Inquiry (Except CompileError (List FieldDefinition))
  | [] => return .ok before
  | fragment :: rest => do
    match ← field name before fragment with
    | .error e => return .error e
    | .ok f => fields name (before ++ [f]) rest

/-- Compiles a record type. -/
def recordType (name : QualifiedName) (spec : String) :
    Inquiry (Except CompileError CompiledUnit) :=
  match checkName name with
  | .error e => return .error e
  | .ok () => do
    match ← fields name [] (fragments spec) with
    | .error e => return .error e
    | .ok defined => return .ok (.ofBody name (.record ⟨name, defined⟩) (some spec) none)

end Compile

end Scriptorium

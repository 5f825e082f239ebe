import Scriptorium.Expression.Translation
import Scriptorium.Name.Discriminator
import Scriptorium.Script.Program
import Scriptorium.Script.Statement

/-!
# Checking scripts

The statements of a script are walked in order, both outcomes of every branch
included, while declarations are entered into a table without values. Every
expression is translated against the table at its first occurrence, once for
each distinct text, and becomes a unit of its own; later occurrences of the text
refer to that unit or fail with it. Faults are collected, not thrown: the walk
goes on with the next expression or statement, and a script compiles when no
fault has been found.
-/

namespace Scriptorium

/-- A fault found in a script. -/
inductive ScriptFault where
  | invalidVariableName (name : String)
  | invalidVariableType (name type : String)
  | declaration (cause : VariableError)
  | undeclaredTarget (name : String)
  | invalidFieldPath (target : String)
  | unreadableRecordType (name : QualifiedName) (cause : RepositoryError)
  | unassignable (target : String) (type : SemanticType) (source : String) (kind : ResultKind)
  | expression (source : String) (cause : TranslationError)
  | conditionAsStatement (name : String) (line : Nat)
  | unknownStatement (name : String) (arguments line : Nat)
  | unknownCondition (name : String) (line : Nat)
  | conditionArguments (comparison : Comparison) (arguments line : Nat)
  | incomparable (comparison : Comparison) (left right : ResultKind) (line : Nat)
  deriving Repr

namespace ScriptFault

/-- The message of a fault. -/
def message : ScriptFault → String
  | .invalidVariableName name => s!"Variable name [{name}] is invalid"
  | .invalidVariableType name type => s!"Variable [{name}] has invalid type [{type}]"
  | .declaration cause => cause.message
  | .undeclaredTarget name => s!"Local variable with name [{name}] is not declared"
  | .invalidFieldPath target => s!"Field path [{target}] is invalid"
  | .unreadableRecordType name cause =>
    s!"Record type [{name.humanName}] could not be read: {cause.message}"
  | .unassignable target type source kind =>
    s!"Variable [{target}] of type [{type.text}] cannot be assigned expression [{source}] " ++
      s!"of type [{kind.name}]"
  | .expression source cause => s!"Could not parse expression [{source}]: {cause.message}"
  | .conditionAsStatement name line =>
    s!"[{name}] can only be used as an if condition (line {line})"
  | .unknownStatement name arguments line =>
    s!"Unknown statement [{name}] with {arguments} argument(s) (line {line})"
  | .unknownCondition name line => s!"Unknown condition [{name}] (line {line})"
  | .conditionArguments comparison arguments line =>
    s!"Condition [{comparison.callName}] expects 2 or 3 arguments, but was {arguments} " ++
      s!"(line {line})"
  | .incomparable comparison left right line =>
    s!"Condition [{comparison.callName}] cannot compare [{left.name}] with [{right.name}] " ++
      s!"(line {line})"

/-- The failed translation behind a fault. -/
def translation? : ScriptFault → Option TranslationError
  | .expression _ cause => some cause
  | _ => none

/-- The failed lookup behind a fault. -/
def lookup? : ScriptFault → Option RepositoryError
  | .expression _ cause => cause.lookup?
  | .unreadableRecordType _ cause => some cause
  | _ => none

end ScriptFault

/-- A translated expression of a script. -/
structure PendingExpression where
  name : QualifiedName
  source : String
  sentence : Sentence
  deriving Repr

namespace PendingExpression

/-- The reference to the expression's unit. -/
def ref (e : PendingExpression) : ExprRef := ⟨e.name, e.source⟩

/-- The kind of the expression's value. -/
def kind (e : PendingExpression) : ResultKind := e.sentence.kind

end PendingExpression

/-- What a check has found so far. -/
structure ScriptCheck where
  table : VariableTable
  manifest : InputManifest
  discriminators : Discriminators
  /-- The translated expressions in the order of their first occurrences. -/
  expressions : List PendingExpression
  /-- Every expression text met so far, with its translation if it has one. -/
  seen : Dictionary String (Option PendingExpression)
  faults : List ScriptFault

/-- A script without faults. -/
structure CheckedScript where
  program : ScriptProgram
  expressions : List PendingExpression
  deriving Repr

namespace ScriptCheck

/-- The check before the first statement. -/
def start : ScriptCheck := ⟨.empty, [], .start, [], ∅, []⟩

/-- A step of the check. -/
abbrev Checking := StateT ScriptCheck Inquiry

/-- Records a fault. -/
def fault (f : ScriptFault) : Checking Unit := fun s =>
  return ((), { s with faults := s.faults ++ [f] })

/-- Records a fault and yields nothing. -/
def refuse {α : Type} (f : ScriptFault) : Checking (Option α) := do
  fault f
  return none

/-- Asks for a record type. A store that cannot be read is a fault. -/
def recordType? (name : QualifiedName) : Checking (Option RecordType) := do
  match ← (Inquiry.lookup name : Checking Lookup) with
  | .ok found => return found
  | .error cause => refuse (.unreadableRecordType name cause)

/-- The reference and the kind of an expression. Its text is translated where it first
occurs. -/
def expression (script : QualifiedName) (text : String) :
    Checking (Option (ExprRef × ResultKind)) := do
  let s ← get
  match s.seen.get? text with
  | some known => return known.map fun e => (e.ref, e.kind)
  | none =>
    match ← (Expression.sentence s.table text : Checking _) with
    | .error cause =>
      set { s with seen := s.seen.insert text none }
      refuse (.expression text cause)
    | .ok sentence =>
      let (d, discriminators) := s.discriminators.allocate text
      let e : PendingExpression := ⟨script.expression d, text, sentence⟩
      set { s with
        discriminators
        seen := s.seen.insert text (some e)
        expressions := s.expressions ++ [e] }
      return some (e.ref, e.kind)

/-- The type that a declaration gives to a variable. -/
def variableType (name typeName : String) : Checking (Option SemanticType) := do
  if !Text.isIdentifier name.toList then
    refuse (.invalidVariableName name)
  else
    match SemanticType.ofTypeName typeName with
    | .record record =>
      match ← recordType? record with
      | some _ => return some (.record record)
      | none => refuse (.invalidVariableType name typeName)
    | type => return some type

/-- The type at the end of a path of fields. -/
def fieldPathType (target : String) : SemanticType → List String → Checking (Option SemanticType)
  | type, [] => return some type
  | .record record, field :: fields => do
    match (← recordType? record).bind (·.field? field) with
    | some definition => fieldPathType target definition.type fields
    | none => refuse (.invalidFieldPath target)
  | _, _ :: _ => refuse (.invalidFieldPath target)

/-- The type of the target of an assignment. -/
def targetType (target : String) : Checking (Option SemanticType) := do
  let (head, fields) := Text.pieces '.' target
  match (← get).table.getLocal? head with
  | none => refuse (.undeclaredTarget head)
  | some v => fieldPathType target v.type fields

/-- Enters a declaration into the table and tells whether that was possible. -/
def declare (operation : VariableTable → TableOutcome) : Checking Bool := do
  let s ← get
  match operation s.table with
  | (.ok (), table) =>
    set { s with table }
    return true
  | (.error cause, table) =>
    set { s with table }
    fault (.declaration cause)
    return false

/-- Checks that a result may be stored in a slot of the type. -/
def assignable (target : String) (type : SemanticType) (value : ExprRef × ResultKind) :
    Checking Bool := do
  if type.accepts value.2 then
    return true
  else
    fault (.unassignable target type value.1.source value.2)
    return false

/-- Checks the declaration of an input. -/
def declareInput (name typeName : String) : Checking (Option Instruction) := do
  match ← variableType name typeName with
  | none => return none
  | some type =>
    if ← declare (·.declareInput name type) then
      modify fun s => { s with manifest := s.manifest ++ [⟨name, type⟩] }
      return some (.declareInput name type)
    else
      return none

/-- Checks the declaration of a local. The initial value is translated before the name comes
into scope. -/
def declareLocal (script : QualifiedName) (name typeName : String) (init : Option String) :
    Checking (Option Instruction) := do
  let type ← variableType name typeName
  let value ← match init with
    | none => pure none
    | some text => some <$> expression script text
  match type with
  | none => return none
  | some type =>
    if ← declare (·.declareLocal name type) then
      match value with
      | none => return some (.declareLocal name type none)
      | some none => return none
      | some (some value) =>
        if ← assignable name type value then
          return some (.declareLocal name type (some value.1))
        else
          return none
    else
      return none

/-- Checks an assignment. -/
def setLocal (script : QualifiedName) (target source : String) :
    Checking (Option Instruction) := do
  let type ← targetType target
  let value ← expression script source
  match value, type with
  | some value, some type =>
    if ← assignable target type value then
      return some (.setLocal target value.1)
    else
      return none
  | _, _ => return none

/-- Checks a call that stands as a statement. -/
def callStatement (script : QualifiedName) (c : Call) : Checking (Option Instruction) :=
  if c.name = "DeclareInputVar" then
    match c.args with
    | [name, typeName] => declareInput name typeName
    | _ => refuse (.unknownStatement c.name c.args.length c.line)
  else if c.name = "DeclareLocalVar" then
    match c.args with
    | [name, typeName] => declareLocal script name typeName none
    | [name, typeName, init] => declareLocal script name typeName (some init)
    | _ => refuse (.unknownStatement c.name c.args.length c.line)
  else if c.name = "SetLocalVar" then
    match c.args with
    | [target, source] => setLocal script target source
    | _ => refuse (.unknownStatement c.name c.args.length c.line)
  else if c.name = Comparison.equal.callName || c.name = Comparison.lessOrEqual.callName then
    refuse (.conditionAsStatement c.name c.line)
  else
    refuse (.unknownStatement c.name c.args.length c.line)

/-- Checks a comparison of two expressions. -/
def compare (script : QualifiedName) (c : Call) (comparison : Comparison) (left right : String)
    (description : Option String) : Checking (Option Condition) := do
  let left ← expression script left
  let right ← expression script right
  match left, right with
  | some (left, leftKind), some (right, rightKind) =>
    if comparison.comparable leftKind rightKind then
      return some ⟨comparison, left, right, description⟩
    else
      refuse (.incomparable comparison leftKind rightKind c.line)
  | _, _ => return none

/-- Checks the call that stands as the condition of a branch. -/
def condition (script : QualifiedName) (c : Call) : Checking (Option Condition) :=
  let compareArgs := fun (comparison : Comparison) =>
    match c.args with
    | [left, right] => compare script c comparison left right none
    | [left, right, description] => compare script c comparison left right (some description)
    | _ => refuse (.conditionArguments comparison c.args.length c.line)
  if c.name = Comparison.equal.callName then compareArgs .equal
  else if c.name = Comparison.lessOrEqual.callName then compareArgs .lessOrEqual
  else refuse (.unknownCondition c.name c.line)

mutual

/-- Checks one statement. -/
def statement (script : QualifiedName) : Statement → Checking (Option Instruction)
  | .call c => callStatement script c
  | .branch c thenBranch elseBranch => do
    let condition ← condition script c
    let thenBranch ← statements script thenBranch
    let elseBranch ← statements script elseBranch
    return condition.map fun condition => .branch condition thenBranch elseBranch

/-- Checks statements in order and keeps the instructions of those that have one. -/
def statements (script : QualifiedName) : List Statement → Checking (List Instruction)
  | [] => return []
  | s :: rest => do
    let first ← statement script s
    let others ← statements script rest
    return first.toList ++ others

end

/-- Checks a whole script. -/
def check (script : QualifiedName) (body : List Statement) :
    Inquiry (Except (List ScriptFault) CheckedScript) := do
  let (instructions, s) ← (statements script body).run start
  if s.faults.isEmpty then
    return .ok ⟨⟨s.manifest, instructions⟩, s.expressions⟩
  else
    return .error s.faults

end ScriptCheck

end Scriptorium

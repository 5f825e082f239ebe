import Scriptorium.Expression.Token
import Scriptorium.Target.Formula
import Scriptorium.Variable.Table

/-!
# Translation of expressions

An expression is a single null, a single reference to a record, an array or an
element, or values of one primitive kind with operation symbols of that kind
between them. Translation reads the tokens from left to right and stops at the
first one that no expression of the language can continue with. What has been
read is kept as a sentence, from which the target code is written.

A token is taken, in this order, for null, an integer, a decimal, a truth
value, a string, an element when it ends in a bracket, a chain of fields when
it has a point, and otherwise a variable. A chain of fields asks for the record
type of every field but the last.
-/

namespace Scriptorium

/-- Why an expression does not translate. -/
inductive TranslationError where
  | unexpectedToken (token : String)
  | operandExpected (previous token : String) (kind : PrimitiveKind)
  | valueExpected (kind : PrimitiveKind) (operand token : String)
  | danglingOperand (kind : PrimitiveKind) (operand : String)
  | unreadableTypes (token : String) (cause : RepositoryError)
  deriving DecidableEq, Repr

namespace TranslationError

/-- The descriptions of a value of one kind. -/
def valueKinds (kind : PrimitiveKind) : List String :=
  [s!"{kind.name} value", s!"{kind.name} variable"]

/-- The token at fault. -/
def token : TranslationError → String
  | .unexpectedToken token => token
  | .operandExpected _ token _ => token
  | .valueExpected _ _ token => token
  | .danglingOperand _ operand => operand
  | .unreadableTypes token _ => token

/-- What would have been accepted instead of the token. -/
def expected : TranslationError → List String
  | .unexpectedToken _ => ["literal", "variable", "field chain", "null"]
  | .operandExpected _ _ kind => kind.operands
  | .valueExpected kind _ _ => valueKinds kind
  | .danglingOperand kind _ => valueKinds kind
  | .unreadableTypes _ _ => []

/-- The failed lookup behind the error. -/
def lookup? : TranslationError → Option RepositoryError
  | .unreadableTypes _ cause => some cause
  | _ => none

/-- The message of the error. -/
def message : TranslationError → String
  | .unexpectedToken token => s!"Unexpected token [{token}]"
  | .operandExpected previous token _ =>
    s!"Operand is expected after [{previous}], but was [{token}]"
  | .valueExpected kind operand token =>
    s!"{kind.name} value or variable is expected after operand [{operand}], but was [{token}]"
  | .danglingOperand _ operand => s!"Unexpected operand [{operand}] at the end"
  | .unreadableTypes token _ => s!"Record types for [{token}] could not be read"

/-- The messages of the failures underneath. -/
def causes (e : TranslationError) : List String := (e.lookup?.map (·.message)).toList

end TranslationError

/-- What one token stands for. -/
inductive Term where
  | operand (o : Operand)
  | reference (access : WrittenAccess)
  | null
  deriving DecidableEq, Repr

/-- A translated expression. -/
inductive Sentence where
  | computed (kind : PrimitiveKind) (first : Operand) (rest : List (String × Operand))
  | reference (access : WrittenAccess)
  | null
  deriving DecidableEq, Repr

/-- The statement of target code for an expression, and the kind of its value. -/
structure TargetCode where
  text : String
  kind : ResultKind
  deriving DecidableEq, Repr

namespace Sentence

/-- The kind of the expression's value. -/
def kind : Sentence → ResultKind
  | .computed kind _ _ => .primitive kind
  | .reference _ => .reference
  | .null => .null

/-- The operands and operations with a blank around each operation. -/
def chainCode (first : Operand) (rest : List (String × Operand)) : List Char :=
  first.code ++ rest.flatMap fun (op, o) => ' ' :: op.toList ++ ' ' :: o.code

/-- The value that the statement returns. -/
def valueCode : Sentence → List Char
  | .computed kind first rest => callCode kind.accessor (chainCode first rest)
  | .reference access => access.code
  | .null => "null".toList

/-- The statement of target code. -/
def statement (s : Sentence) : List Char := "return ".toList ++ s.valueCode ++ [';']

/-- The statement with its kind. -/
def targetCode (s : Sentence) : TargetCode := ⟨String.ofList s.statement, s.kind⟩

end Sentence

namespace Expression

/-- The term that reads a slot of this type. -/
def accessTerm (access : WrittenAccess) : SemanticType → Term
  | .primitive kind => .operand (.read access kind)
  | .array | .record _ => .reference access

/-- The term of a declared variable. -/
def variableTerm? (table : VariableTable) (name : List Char) : Option Term :=
  if Text.isIdentifier name then
    (table.get? (String.ofList name)).map fun v => accessTerm ⟨name, []⟩ v.type
  else none

/-- The term of an element `name[k]` of a declared array. Elements count from one in
expressions and from zero in target code. -/
def element? (table : VariableTable) (token : List Char) : Option Term := do
  let (name, rest) ← Text.splitFirst? ['['] token
  let index ← if rest.getLast? = some ']' then some rest.dropLast else none
  if !Text.isIdentifier name || !Text.isPositiveInteger index then none
  else
    let v ← table.get? (String.ofList name)
    let n := Text.digitsValue index
    if v.type = .array && n < WrittenStep.indexBound then
      some (.reference ⟨name, [.index (Text.natDigits (n - 1))]⟩)
    else none

/-- Follows a chain of fields from a slot of this type. -/
def followFields (access : WrittenAccess) :
    SemanticType → List (List Char) → Inquiry (Except RepositoryError (Option Term))
  | type, [] => return .ok (some (accessTerm access type))
  | .record typeName, field :: fields => do
    match ← Inquiry.lookup typeName with
    | .error cause => return .error cause
    | .ok none => return .ok none
    | .ok (some recordType) =>
      match recordType.field? (String.ofList field) with
      | none => return .ok none
      | some definition =>
        followFields ⟨access.head, access.steps ++ [.field field]⟩ definition.type fields
  | _, _ :: _ => return .ok none

/-- The term of a chain of fields that begins with a declared variable. -/
def fieldChain (table : VariableTable) (token : List Char) :
    Inquiry (Except RepositoryError (Option Term)) :=
  let (head, fields) := Text.splitAt '.' token
  match if Text.isIdentifier head then table.get? (String.ofList head) else none with
  | none => return .ok none
  | some v => followFields ⟨head, []⟩ v.type fields

/-- What a token stands for, none when it is no value. -/
def classify (table : VariableTable) (token : List Char) :
    Inquiry (Except RepositoryError (Option Term)) :=
  if token = "null".toList then return .ok (some .null)
  else if Text.isInteger token then return .ok (some (.operand (.integer token)))
  else if Text.isDecimal token then return .ok (some (.operand (.decimal token)))
  else if token = "true".toList then return .ok (some (.operand (.boolean true)))
  else if token = "false".toList then return .ok (some (.operand (.boolean false)))
  else
    match stringLiteral? token with
    | some content => return .ok (some (.operand (.string content)))
    | none =>
      if token.getLast? = some ']' then return .ok (element? table token)
      else if token.contains '.' then fieldChain table token
      else return .ok (variableTerm? table token)

/-- What has been read of an expression. -/
inductive State where
  /-- Nothing. -/
  | start
  /-- Values up to a value. -/
  | value (kind : PrimitiveKind) (first : Operand) (rest : List (String × Operand))
  /-- Values up to an operation symbol. -/
  | operation (kind : PrimitiveKind) (first : Operand) (rest : List (String × Operand))
    (symbol : String)
  /-- A sentence that nothing may follow. -/
  | closed (s : Sentence)
  deriving Repr

/-- The state after a first term. -/
def State.ofTerm : Term → State
  | .operand o => .value o.kind o []
  | .reference access => .closed (.reference access)
  | .null => .closed .null

/-- The state after a term that follows an operation symbol, when the term fits. -/
def State.continue? (kind : PrimitiveKind) (first : Operand) (rest : List (String × Operand))
    (symbol : String) : Term → Option State
  | .operand o => if o.kind = kind then some (.value kind first (rest ++ [(symbol, o)])) else none
  | _ => none

/-- Reads one more token. `previous` is the token before it. -/
def advance (table : VariableTable) (previous : String) (state : State)
    (token : List Char) : Inquiry (Except TranslationError State) :=
  let text := String.ofList token
  match state with
  | .start => do
    match ← classify table token with
    | .error cause => return .error (.unreadableTypes text cause)
    | .ok (some term) => return .ok (.ofTerm term)
    | .ok none => return .error (.unexpectedToken text)
  | .value kind first rest =>
    if kind.operands.contains text then return .ok (.operation kind first rest text)
    else return .error (.operandExpected previous text kind)
  | .operation kind first rest symbol => do
    match ← classify table token with
    | .error cause => return .error (.unreadableTypes text cause)
    | .ok found =>
      match found.bind (State.continue? kind first rest symbol) with
      | some state => return .ok state
      | none => return .error (.valueExpected kind previous text)
  | .closed _ => return .error (.unexpectedToken text)

/-- The sentence that has been read when no token is left. -/
def finish (previous : String) : State → Except TranslationError Sentence
  | .start => .error (.unexpectedToken previous)
  | .value kind first rest => .ok (.computed kind first rest)
  | .operation kind _ _ symbol => .error (.danglingOperand kind symbol)
  | .closed s => .ok s

/-- Reads the remaining tokens. -/
def readTokens (table : VariableTable) (previous : String) (state : State) :
    List (List Char) → Inquiry (Except TranslationError Sentence)
  | [] => return finish previous state
  | token :: tokens => do
    match ← advance table previous state token with
    | .error e => return .error e
    | .ok state => readTokens table (String.ofList token) state tokens

/-- The sentence of an expression over the declared variables. -/
def sentence (table : VariableTable) (expression : String) :
    Inquiry (Except TranslationError Sentence) :=
  readTokens table "" .start (tokenize expression.toList)

/-- The target code of an expression over the declared variables. -/
def translate (table : VariableTable) (expression : String) :
    Inquiry (Except TranslationError TargetCode) := do
  match ← sentence table expression with
  | .error e => return .error e
  | .ok s => return .ok s.targetCode

end Expression

end Scriptorium

import Scriptorium.Decimal.Arithmetic
import Scriptorium.Target.Tree
import Scriptorium.Variable.Table

/-!
# Evaluation of expressions

A tree is evaluated from left to right over the variables of a run. Integers
compute exactly or fail, decimals must stay finite, and the operations on truth
values leave out the second operand when the first one decides. A read fails on
null and on a value of another type, except that an integer is read as a
decimal where one is wanted.
-/

namespace Scriptorium

/-- Why an evaluation failed. -/
inductive EvalError where
  | unknownVariable (name : String)
  | nullValue (access : String)
  | noSuchField (access field : String)
  | notARecord (access : String)
  | notAnArray (access : String)
  | outOfBounds (access : String) (size : Nat)
  | wrongType (access value : String) (kind : PrimitiveKind)
  | overflow (lhs : String) (op : BinaryOp) (rhs : String)
  | divisionByZero (lhs rhs : String)
  | invalidOperands (lhs : String) (op : BinaryOp) (rhs : String)
  | incomparable (lhs rhs : String)
  deriving DecidableEq, Repr

/-- The message of a failed evaluation. -/
def EvalError.message : EvalError → String
  | .unknownVariable name => s!"Variable [{name}] is not declared"
  | .nullValue access => s!"[{access}] is null"
  | .noSuchField access field => s!"[{access}] has no field [{field}]"
  | .notARecord access => s!"[{access}] is not a record"
  | .notAnArray access => s!"[{access}] is not an array"
  | .outOfBounds access size => s!"[{access}] has {size} element(s)"
  | .wrongType access value kind =>
    s!"[{access}] holds [{value}], which is not a {kind.name} value"
  | .overflow lhs op rhs => s!"Overflow in [{lhs} {op.symbol} {rhs}]"
  | .divisionByZero lhs rhs => s!"Division by zero in [{lhs} / {rhs}]"
  | .invalidOperands lhs op rhs =>
    s!"Operator [{op.symbol}] cannot combine [{lhs}] and [{rhs}]"
  | .incomparable lhs rhs => s!"[{lhs}] cannot be compared with [{rhs}]"

namespace Evaluate

/-- The part of a value that a step leads to. `path` spells the way to the value. -/
def step (path : String) : Value → Step → Except EvalError Value
  | .null, _ => .error (.nullValue path)
  | .record _ fields, .field name =>
    match Entries.get? name fields with
    | some v => .ok v
    | none => .error (.noSuchField path name)
  | _, .field _ => .error (.notARecord path)
  | .array items, .index n =>
    match items[n]? with
    | some v => .ok v
    | none => .error (.outOfBounds path items.length)
  | _, .index _ => .error (.notAnArray path)

/-- The part of a value at the end of several steps. -/
def follow (path : String) : Value → List Step → Except EvalError Value
  | v, [] => .ok v
  | v, s :: rest => do follow (path ++ s.text) (← step path v s) rest

/-- The value that an access finds. -/
def resolve (table : VariableTable) (a : Access) : Except EvalError Value :=
  match table.get? a.head with
  | none => .error (.unknownVariable a.head)
  | some v => follow a.head v.value a.steps

/-- The value that an access finds, when it is of a primitive type. -/
def read (table : VariableTable) (a : Access) (kind : PrimitiveKind) :
    Except EvalError Value := do
  match kind, ← resolve table a with
  | _, .null => throw (.nullValue a.text)
  | .integer, .integer n => return .integer n
  | .decimal, .decimal d => return .decimal d
  | .boolean, .boolean b => return .boolean b
  | .string, .string s => return .string s
  | .decimal, .integer n => return .decimal (Decimal.ofInt n.toInt)
  | kind, other => throw (.wrongType a.text other.text kind)

/-- The exact result of an operation on integers, when there is one. -/
def integerOp? (a b : Int64) : BinaryOp → Option (Option Int64)
  | .add => some (Integer.add? a b)
  | .sub => some (Integer.sub? a b)
  | .mul => some (Integer.mul? a b)
  | .div => some (Integer.div? a b)
  | .and | .or => none

/-- The rounded result of an operation on decimals. -/
def decimalOp? (a b : Decimal) : BinaryOp → Option Decimal
  | .add => some (a.add b)
  | .sub => some (a.sub b)
  | .mul => some (a.mul b)
  | .div => some (a.div b)
  | .and | .or => none

/-- The result of an operation on two values. -/
def apply (op : BinaryOp) (lhs rhs : Value) : Except EvalError Value :=
  let invalid : Except EvalError Value := .error (.invalidOperands lhs.text op rhs.text)
  match lhs, rhs with
  | .integer a, .integer b =>
    if op = .div && b = 0 then .error (.divisionByZero lhs.text rhs.text)
    else
      match integerOp? a b op with
      | some (some n) => .ok (.integer n)
      | some none => .error (.overflow lhs.text op rhs.text)
      | none => invalid
  | .decimal a, .decimal b =>
    if op = .div && b.isZero then .error (.divisionByZero lhs.text rhs.text)
    else
      match decimalOp? a b op with
      | some d => if d.isFinite then .ok (.decimal d) else .error (.overflow lhs.text op rhs.text)
      | none => invalid
  | .boolean a, .boolean b =>
    match op with
    | .and => .ok (.boolean (a && b))
    | .or => .ok (.boolean (a || b))
    | _ => invalid
  | .string a, .string b =>
    match op with
    | .add => .ok (.string (a ++ b))
    | _ => invalid
  | _, _ => invalid

/-- The first operand decides the result by itself. -/
def decided? : BinaryOp → Value → Option Value
  | .and, .boolean false => some (.boolean false)
  | .or, .boolean true => some (.boolean true)
  | _, _ => none

/-- The value of a tree. -/
def node (table : VariableTable) : Node → Except EvalError Value
  | .literal v => .ok v
  | .null => .ok .null
  | .reference a => resolve table a
  | .read a kind => read table a kind
  | .binary op lhs rhs => do
    let left ← node table lhs
    match decided? op left with
    | some v => return v
    | none => apply op left (← node table rhs)

/-- The value of an expression. -/
def expr (table : VariableTable) (e : TargetExpr) : Except EvalError Value :=
  node table e.root

end Evaluate

end Scriptorium

import Scriptorium.Target.Tree

/-!
# Target code as it is written

A formula combines operands of one primitive kind in two layers: groups joined
by the operations that bind tightly, and the groups joined by the others. Its
tree folds each layer from the left. Numerals and element numbers are kept as
digits, since they need not denote a number of the machine; the tree exists
when all of them do.

`code` writes an operand as target code. A quote or backslash inside a quoted
text is written behind a backslash.
-/

namespace Scriptorium

/-- A step as it is written, an element by the digits of its number. -/
inductive WrittenStep where
  | field (name : List Char)
  | index (digits : List Char)
  deriving DecidableEq, Repr

/-- A variable and the steps taken from it, as written. -/
structure WrittenAccess where
  head : List Char
  steps : List WrittenStep
  deriving DecidableEq, Repr

/-- An operand of a formula. -/
inductive Operand where
  | integer (numeral : List Char)
  | decimal (numeral : List Char)
  | boolean (b : Bool)
  | string (content : List Char)
  | read (access : WrittenAccess) (kind : PrimitiveKind)
  deriving DecidableEq, Repr

/-- Items with an operation between any two neighbours. -/
structure Chain (α : Type) where
  first : α
  rest : List (BinaryOp × α)
  deriving Repr

/-- A statement of target code. -/
inductive Formula where
  | computed (kind : PrimitiveKind) (groups : Chain (Chain Operand))
  | reference (access : WrittenAccess)
  | null
  deriving Repr

/-- Why a formula has no tree. -/
inductive RangeError where
  | integer (numeral : List Char)
  | index (digits : List Char)
  deriving DecidableEq, Repr

/-- The message about a number out of range. -/
def RangeError.message : RangeError → String
  | .integer numeral => s!"Integer literal [{String.ofList numeral}] is out of range"
  | .index digits => s!"Element index [{String.ofList digits}] is out of range"

namespace Chain

variable {α : Type}

/-- The tree of a chain, folded from the left, from the trees of its items. -/
def fold (tree : α → Except RangeError Node) (c : Chain α) : Except RangeError Node := do
  let first ← tree c.first
  c.rest.foldlM (fun lhs (op, item) => do
    let rhs ← tree item
    return .binary op lhs rhs) first

end Chain

/-- Element numbers lie below this bound. -/
def WrittenStep.indexBound : Nat := UInt64.size

/-- The step that is written. -/
def WrittenStep.step : WrittenStep → Except RangeError Step
  | .field name => .ok (.field (String.ofList name))
  | .index digits =>
    let n := Text.digitsValue digits
    if n < indexBound then .ok (.index n) else .error (.index digits)

/-- The access that is written. -/
def WrittenAccess.access (a : WrittenAccess) : Except RangeError Access := do
  let steps ← a.steps.mapM WrittenStep.step
  return ⟨String.ofList a.head, steps⟩

/-- The kind of an operand's value. -/
def Operand.kind : Operand → PrimitiveKind
  | .integer _ => .integer
  | .decimal _ => .decimal
  | .boolean _ => .boolean
  | .string _ => .string
  | .read _ kind => kind

/-- The leaf of an operand. A decimal numeral always denotes a number, possibly infinite. -/
def Operand.node : Operand → Except RangeError Node
  | .integer numeral =>
    match Integer.ofInt? (Text.integerValue numeral) with
    | some n => .ok (.literal (.integer n))
    | none => .error (.integer numeral)
  | .decimal numeral => .ok (.literal (.decimal ((Decimal.read? numeral).getD .nan)))
  | .boolean b => .ok (.literal (.boolean b))
  | .string content => .ok (.literal (.string (String.ofList content)))
  | .read access kind => do return .read (← access.access) kind

/-- The kind and the tree of a statement of target code. -/
def Formula.expr : Formula → Except RangeError TargetExpr
  | .computed kind groups => do
    return ⟨.primitive kind, ← groups.fold (Chain.fold Operand.node)⟩
  | .reference access => do return ⟨.reference, .reference (← access.access)⟩
  | .null => .ok ⟨.null, .null⟩

/-- The spelling of a text between quotes. -/
def quoteText (cs : List Char) : List Char :=
  '"' :: cs.flatMap (fun c => if c = '"' || c = '\\' then ['\\', c] else [c]) ++ ['"']

/-- A call of a word with one argument. -/
def callCode (word : String) (argument : List Char) : List Char :=
  word.toList ++ '(' :: argument ++ [')']

/-- The target code of a step. -/
def WrittenStep.code : WrittenStep → List Char
  | .field name => '.' :: callCode "field" (quoteText name)
  | .index digits => '.' :: callCode "at" digits

/-- The target code of an access. -/
def WrittenAccess.code (a : WrittenAccess) : List Char :=
  callCode "var" (quoteText a.head) ++ a.steps.flatMap WrittenStep.code

/-- The target code of an operand. -/
def Operand.code : Operand → List Char
  | .integer numeral => numeral
  | .decimal numeral => numeral
  | .boolean b => (if b then "true" else "false").toList
  | .string content => quoteText content
  | .read access kind => access.code ++ '.' :: callCode kind.accessor []

end Scriptorium

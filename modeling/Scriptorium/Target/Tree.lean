import Scriptorium.Value.Basic

/-!
# Expression trees

The tree of an expression computes its value from literals and from reads of
variables, record fields and array elements. A read expects a primitive type; a
reference yields whatever it finds.
-/

namespace Scriptorium

/-- A step from a value to a part of it. Elements count from zero. -/
inductive Step where
  | field (name : String)
  | index (n : Nat)
  deriving DecidableEq, Repr

/-- A variable and the steps taken from its value. -/
structure Access where
  head : String
  steps : List Step
  deriving DecidableEq, Repr

/-- The operation between two operands. -/
inductive BinaryOp where
  | add
  | sub
  | mul
  | div
  | and
  | or
  deriving DecidableEq, Repr

/-- The tree of an expression. -/
inductive Node where
  | literal (v : Value)
  | read (access : Access) (kind : PrimitiveKind)
  | reference (access : Access)
  | null
  | binary (op : BinaryOp) (lhs rhs : Node)
  deriving Repr

/-- A compiled expression: its tree and the kind of its value. -/
structure TargetExpr where
  kind : ResultKind
  root : Node
  deriving Repr

/-- The operation's symbol. -/
def BinaryOp.symbol : BinaryOp → String
  | .add => "+"
  | .sub => "-"
  | .mul => "*"
  | .div => "/"
  | .and => "&&"
  | .or => "||"

/-- The step as an expression spells it. Elements count from one there. -/
def Step.text : Step → String
  | .field name => "." ++ name
  | .index n => s!"[{n + 1}]"

/-- The access as an expression spells it. -/
def Access.text (a : Access) : String := a.steps.foldl (fun s step => s ++ step.text) a.head

end Scriptorium

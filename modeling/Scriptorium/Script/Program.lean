import Scriptorium.Value.Kind

/-!
# Compiled scripts

A program is the tree of a script's statements with every expression replaced
by a reference to the unit that holds it. The reference carries the text of the
expression too, so the unit can be compiled again where it is missing. The
manifest lists the inputs that the script declares, in the order in which the
declarations are written.
-/

namespace Scriptorium

/-- A reference to an expression unit, with the expression's text. -/
structure ExprRef where
  name : QualifiedName
  source : String
  deriving DecidableEq, Repr

/-- How a condition compares its two values. -/
inductive Comparison where
  | equal
  | lessOrEqual
  deriving DecidableEq, Repr

/-- The name of the call that makes the comparison. -/
def Comparison.callName : Comparison → String
  | .equal => "EqualCondition"
  | .lessOrEqual => "LessOrEqualCondition"

/-- Values of these kinds may be compared. Null may be equal to anything, numbers compare
with numbers, and otherwise both kinds are the same; only numbers and strings are ordered. -/
def Comparison.comparable : Comparison → ResultKind → ResultKind → Bool
  | .equal, left, right =>
    left = right || left = .null || right = .null || (left.isNumeric && right.isNumeric)
  | .lessOrEqual, left, right =>
    (left.isNumeric && right.isNumeric) ||
      (left = .primitive .string && right = .primitive .string)

/-- The condition of a branch. -/
structure Condition where
  comparison : Comparison
  left : ExprRef
  right : ExprRef
  description : Option String
  deriving DecidableEq, Repr

/-- An input that a script declares. -/
structure InputParameter where
  name : String
  type : SemanticType
  deriving DecidableEq, Repr

/-- The inputs of a script in the order of their declarations. -/
abbrev InputManifest := List InputParameter

/-- A statement of a program. -/
inductive Instruction where
  | declareInput (name : String) (type : SemanticType)
  | declareLocal (name : String) (type : SemanticType) (init : Option ExprRef)
  | setLocal (target : String) (value : ExprRef)
  | branch (condition : Condition) (thenBranch elseBranch : List Instruction)
  deriving Repr

/-- A compiled script. -/
structure ScriptProgram where
  inputs : InputManifest
  statements : List Instruction
  deriving Repr

end Scriptorium

import Scriptorium.Record.Type
import Scriptorium.Script.Program
import Scriptorium.Target.Tree

/-!
# Units

A unit is compiled code under a name: an expression, a script or a record type.
-/

namespace Scriptorium

/-- The content of a unit. -/
inductive UnitBody where
  | expression (e : TargetExpr)
  | script (p : ScriptProgram)
  | record (t : RecordType)
  deriving Repr

namespace UnitBody

/-- The kind of unit that has this content. -/
def kind : UnitBody → UnitKind
  | .expression _ => .expression
  | .script _ => .script
  | .record _ => .recordType

/-- The expression that the content is. -/
def expression? : UnitBody → Option TargetExpr
  | .expression e => some e
  | _ => none

/-- The script that the content is. -/
def script? : UnitBody → Option ScriptProgram
  | .script p => some p
  | _ => none

/-- The record type that the content is. -/
def recordType? : UnitBody → Option RecordType
  | .record t => some t
  | _ => none

end UnitBody

end Scriptorium

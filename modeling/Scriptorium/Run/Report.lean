import Scriptorium.Run.Progress
import Scriptorium.Text.Chain

/-!
# Runs and their reports

A run resolves a script, takes the input values in order and carries out the
script's instructions. Its report holds the locals at the end, or, when the run
failed, what went wrong and no locals.
-/

namespace Scriptorium

/-- How a run ended. -/
inductive RunStatus where
  | completed
  | failed
  deriving DecidableEq, Repr

/-- The word for the end of a run. -/
def RunStatus.text : RunStatus → String
  | .completed => "completed"
  | .failed => "failed"

/-- What is told about a run. -/
structure RunReport where
  script : String
  status : RunStatus
  error : Option String
  locals : Dictionary String Value

/-- The report on the run of a script with this outcome. -/
def RunReport.ofOutcome (name : QualifiedName) :
    Except ExecutionError VariableTable → RunReport
  | .ok table => ⟨name.humanName, .completed, none, table.localValues⟩
  | .error cause =>
    ⟨name.humanName, .failed, some (Text.chain cause.message cause.causes), ∅⟩

namespace Engine

variable {σ : Type} [CodeRepository σ]

/-- Carries out a script from the beginning. -/
def execute (e : Engine σ) (name : QualifiedName) (fallback : Option Fallback)
    (inputs : List Value) : Except ExecutionError VariableTable × Engine σ :=
  match e.getExecutable name fallback with
  | (.error cause, e) => (.error cause, e)
  | (.ok u, e) =>
    match u.body.script? with
    | none => (.error (.wrongKind u.name .script u.body.kind), e)
    | some program => e.finish ⟨program.statements, .withInputs inputs⟩

/-- Runs a script that is cached or stored. -/
def runScript (e : Engine σ) (name : QualifiedName) (inputs : List Value) :
    RunReport × Engine σ :=
  let (outcome, e) := e.execute name none inputs
  (.ofOutcome name outcome, e)

/-- Runs a script, compiling the body when the script is neither cached nor stored. -/
def runSource (e : Engine σ) (name : QualifiedName) (body : String) (inputs : List Value) :
    RunReport × Engine σ :=
  let (outcome, e) := e.execute name (some (.script body)) inputs
  (.ofOutcome name outcome, e)

end Engine

end Scriptorium

import Scriptorium.Engine.Basic
import Scriptorium.Value.Comparison

/-!
# The course of a run

A run in progress has instructions that remain and the variables as they are.
Each advance carries out the first instruction; a branch puts the side that its
condition chooses in front of the rest. Between two advances the run holds
nothing but this, and finds every expression anew by name, so reloads may
happen there.
-/

namespace Scriptorium

mutual

/-- The number of instructions in an instruction, itself included. -/
def Instruction.size : Instruction → Nat
  | .branch _ thenBranch elseBranch => 1 + sizes thenBranch + sizes elseBranch
  | _ => 1

/-- The number of instructions in a list of them. -/
def Instruction.sizes : List Instruction → Nat
  | [] => 0
  | i :: rest => i.size + sizes rest

end

namespace Instruction

theorem size_pos (i : Instruction) : 0 < i.size := by
  cases i <;> simp only [size] <;> omega

@[simp] theorem sizes_append (is js : List Instruction) :
    sizes (is ++ js) = sizes is + sizes js := by
  induction is with
  | nil => simp [sizes]
  | cons i rest ih => simp only [List.cons_append, sizes, ih]; omega

end Instruction

/-- A run between two instructions. -/
structure Progress where
  remaining : List Instruction
  table : VariableTable

namespace Engine

variable {σ : Type}

/-- The outcome of an operation on variables that the engine carries out. -/
def onVariables (outcome : TableOutcome) : Except ExecutionError VariableTable :=
  match outcome with
  | (.ok (), table) => .ok table
  | (.error cause, _) => .error (.binding cause)

/-- The outcome of a comparison of two values. -/
def compareValues (c : Condition) (left right : Value) : Except ExecutionError Bool :=
  match c.comparison with
  | .equal => .ok (left.equal right)
  | .lessOrEqual =>
    match left.compare? right with
    | some order => .ok (order ≠ .gt)
    | none =>
      .error (.evaluation s!"{c.left.source} <= {c.right.source}"
        (.incomparable left.text right.text))

/-- A run goes on with these instructions when the one before them succeeded. -/
def resume (rest : List Instruction) :
    Except ExecutionError VariableTable × Engine σ → Except ExecutionError Progress × Engine σ
  | (.error cause, e) => (.error cause, e)
  | (.ok table, e) => (.ok ⟨rest, table⟩, e)

theorem remaining_resume {rest : List Instruction} {p : Progress} {e : Engine σ}
    {outcome : Except ExecutionError VariableTable × Engine σ}
    (h : resume rest outcome = (.ok p, e)) : p.remaining = rest := by
  obtain ⟨_ | _, _⟩ := outcome <;> cases h
  rfl

variable [CodeRepository σ]

/-- Decides a condition. Both sides are evaluated, the left one first. -/
def test (e : Engine σ) (c : Condition) (table : VariableTable) :
    Except ExecutionError Bool × Engine σ :=
  match e.evaluate c.left table with
  | (.error cause, e) => (.error cause, e)
  | (.ok left, e) =>
    match e.evaluate c.right table with
    | (.error cause, e) => (.error cause, e)
    | (.ok right, e) => (compareValues c left right, e)

/-- Declares a local, which takes the value of its initializer if it has one. -/
def declareLocal (e : Engine σ) (name : String) (type : SemanticType) (init : Option ExprRef)
    (table : VariableTable) : Except ExecutionError VariableTable × Engine σ :=
  match init with
  | none => (onVariables (table.declareLocal name type), e)
  | some ref =>
    match e.evaluate ref table with
    | (.error cause, e) => (.error cause, e)
    | (.ok value, e) =>
      match onVariables (table.declareLocal name type) with
      | .error cause => (.error cause, e)
      | .ok table => (onVariables (table.assign name value), e)

/-- Assigns the value of an expression to a local or to a field of one. -/
def setLocal (e : Engine σ) (target : String) (ref : ExprRef) (table : VariableTable) :
    Except ExecutionError VariableTable × Engine σ :=
  match e.evaluate ref table with
  | (.error cause, e) => (.error cause, e)
  | (.ok value, e) =>
    let (outcome, e) := e.inquire (table.assignPath target value)
    (onVariables outcome, e)

/-- Carries out an instruction in front of others. -/
def advance (e : Engine σ) (i : Instruction) (rest : List Instruction)
    (table : VariableTable) : Except ExecutionError Progress × Engine σ :=
  match i with
  | .declareInput name type => resume rest (onVariables (table.bindInput name type), e)
  | .declareLocal name type init => resume rest (e.declareLocal name type init table)
  | .setLocal target value => resume rest (e.setLocal target value table)
  | .branch condition thenBranch elseBranch =>
    match e.test condition table with
    | (.error cause, e) => (.error cause, e)
    | (.ok true, e) => (.ok ⟨thenBranch ++ rest, table⟩, e)
    | (.ok false, e) => (.ok ⟨elseBranch ++ rest, table⟩, e)

/-- What remains shrinks with every advance. -/
theorem sizes_remaining_advance {e e' : Engine σ} {i : Instruction} {rest : List Instruction}
    {table : VariableTable} {p : Progress}
    (h : e.advance i rest table = (.ok p, e')) :
    Instruction.sizes p.remaining < Instruction.sizes (i :: rest) := by
  have hpos := i.size_pos
  cases i with
  | branch condition thenBranch elseBranch =>
    simp only [advance] at h
    split at h
    · cases h
    · cases h
      simp only [Instruction.sizes_append, Instruction.sizes, Instruction.size]
      omega
    · cases h
      simp only [Instruction.sizes_append, Instruction.sizes, Instruction.size]
      omega
  | declareInput name type =>
    rw [remaining_resume h, Instruction.sizes]
    omega
  | declareLocal name type init =>
    rw [remaining_resume h, Instruction.sizes]
    omega
  | setLocal target value =>
    rw [remaining_resume h, Instruction.sizes]
    omega

/-- Carries out all that remains of a run. -/
def finish (e : Engine σ) : Progress → Except ExecutionError VariableTable × Engine σ
  | ⟨[], table⟩ => (.ok table, e)
  | ⟨i :: rest, table⟩ =>
    match h : e.advance i rest table with
    | (.error cause, e) => (.error cause, e)
    | (.ok next, e) =>
      have := sizes_remaining_advance h
      e.finish next
termination_by p => Instruction.sizes p.remaining

end Engine

end Scriptorium

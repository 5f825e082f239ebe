import Scriptorium.Proofs.Expression.Variables
import Scriptorium.Proofs.Run.Scope
import Scriptorium.Proofs.Unit.Compilation

/-!
# Expressions compiled again during a run

Where the unit of an expression is missing, a run compiles the expression's text
against its own variables. They are fewer than those that the script was checked
against, and more than those at the text's first occurrence. The text is compiled
to the script's own unit all the same, once the run has every variable that the
text reads.
-/

namespace Scriptorium

variable {types : Registry} {name : QualifiedName} {body : String} {c : ScriptCompilation}

/-- Wherever a run of a compiled script comes to an expression whose variables it has, the text of
the expression is compiled to the one unit of the script that has the expression's name. -/
theorem Compile.recompiles_along_runs (h : (Compile.script name body).run types = .ok c) :
    ∃ statements checked, Script.parseScript body.toList = .ok statements ∧
      (ScriptCheck.check name statements).run types = .ok checked ∧
      c.script = .ofBody name (.script checked.program) (some body) (some c.inputs) ∧
      ∀ (σ : Type) [CodeRepository σ] (inputs : List Value) (i : Instruction)
        (rest : List Instruction) (t : VariableTable),
        Engine.Comes σ ⟨checked.program.statements, .withInputs inputs⟩ ⟨i :: rest, t⟩ →
          ∀ ref ∈ i.operands, (∀ x ∈ Expression.readNames ref.source, t.get? x ≠ none) →
            ∃ u ∈ c.expressions, u.name = ref.name ∧
              (∀ v ∈ c.expressions, v.name = ref.name → v = u) ∧
                (Compile.expression ref.name ref.source t).run types = .ok u := by
  obtain ⟨parts⟩ := Compile.script_eq_ok h
  refine ⟨parts.statements, parts.checked, parts.parsed, parts.check,
    parts.inputs ▸ parts.script, ?_⟩
  intro σ _ inputs i rest t hrun ref href hdeclared
  obtain ⟨⟨_, hmatches⟩, -, -⟩ := ScriptCheck.check_matches parts.check
  have hscope := (Engine.Scoped.of_matches hmatches inputs).comes hrun
  obtain ⟨declared, kind, hagrees, hsite⟩ := hscope.sites ref href
  -- The run may lack declarations, but what it has is declared alike.
  have hsame : Expression.sentence declared ref.source = Expression.sentence t ref.source :=
    Expression.sentence_congr fun x hx => hagrees.typeOf?_eq (hdeclared x hx)
  exact parts.unit_of_site hsite fun s hsentence => hsame ▸ hsentence

/-- A script in which an expression occurs first inside of a branch, behind a declaration. -/
def Compile.branching : String :=
  "DeclareInputVar(\"N\", \"Integer\");\nDeclareLocalVar(\"Next\", \"Integer\");\n" ++
    "if (EqualCondition(\"N\", \"0\")) \x7b DeclareLocalVar(\"Zero\", \"Boolean\"); " ++
    "SetLocalVar(\"Next\", \"N + 1\"); \x7d\nSetLocalVar(\"Next\", \"N + 1\");"

/-- The expression that occurs twice. -/
def ExprRef.successor : ExprRef := ⟨(QualifiedName.script "Count").expression "N_Pls_1", "N + 1"⟩

/-- The condition in front of its first occurrence. -/
def Condition.isZero : Condition :=
  ⟨.equal, ⟨(QualifiedName.script "Count").expression "N", "N"⟩,
    ⟨(QualifiedName.script "Count").expression "$1", "0"⟩, none⟩

/-- The instructions of the script. -/
def Compile.branchingInstructions : List Instruction :=
  [.declareInput "N" (.primitive .integer), .declareLocal "Next" (.primitive .integer) none,
    .branch .isZero
      [.declareLocal "Zero" (.primitive .boolean) none, .setLocal "Next" .successor] [],
    .setLocal "Next" .successor]

/-- The calls of two statements, a branch with one side of two statements, and a statement behind
it. -/
def Statement.callsAroundBranch? : List Statement → Option (List Call)
  | [.call first, .call second, .branch condition [.call third, .call fourth] [], .call last] =>
    some [first, second, condition, third, fourth, last]
  | _ => none

theorem Statement.eq_of_callsAroundBranch? {ss : List Statement}
    {first second condition third fourth last : Call}
    (h : callsAroundBranch? ss = some [first, second, condition, third, fourth, last]) :
    ss = [.call first, .call second, .branch condition [.call third, .call fourth] [],
      .call last] := by
  unfold callsAroundBranch? at h
  split at h
  · cases h
    rfl
  · cases h

/-- An engine that has compiled both sides of the condition. -/
def Engine.comparing : Engine NoRepository :=
  ((standalone.seed Condition.isZero.left.name
    (.expression ⟨.primitive .integer, .read ⟨"N", []⟩ .integer⟩)).2.seed Condition.isZero.right.name
      (.expression ⟨.primitive .integer, .literal (.integer 0)⟩)).2

/-- The variables of a run that has not taken the branch. -/
def VariableTable.behindBranch : VariableTable :=
  ({ empty.addInput "N" ⟨.primitive .integer, .integer 41⟩ with pending := [] }).setLocal "Next"
    ⟨.primitive .integer, .null⟩

theorem Engine.comes_branching : Comes NoRepository
    ⟨Compile.branchingInstructions, .withInputs [.integer 41]⟩
    ⟨[.setLocal "Next" .successor], .behindBranch⟩ := by
  refine .advance (e := comparing) rfl ?_
  refine .advance (e := comparing) rfl ?_
  exact .advance (e := comparing) rfl (.refl _)

/-- The expression is checked first where one variable more is declared than the run has where it
evaluates it. -/
theorem Compile.recompiles_along_runs_branching : ∃ c inputs u,
    (Compile.script (.script "Count") branching).run (fun _ => .ok none) = .ok c ∧
      c.script = .ofBody (.script "Count") (.script ⟨inputs, branchingInstructions⟩)
        (some branching) (some c.inputs) ∧
      Engine.Comes NoRepository ⟨branchingInstructions, .withInputs [.integer 41]⟩
        ⟨[.setLocal "Next" .successor], .behindBranch⟩ ∧
      Expression.readNames ExprRef.successor.source = ["N"] ∧
      VariableTable.behindBranch.get? "Zero" = none ∧ u ∈ c.expressions ∧
        (Compile.expression ExprRef.successor.name ExprRef.successor.source .behindBranch).run
          (fun _ => .ok none) = .ok u := by
  have hcompiles : ((Compile.script (.script "Count") branching).run
      fun _ => .ok none).toOption.isSome = true := by decide +kernel
  have hcalls : (Script.parseScript branching.toList).toOption.bind Statement.callsAroundBranch? =
      some [⟨"DeclareInputVar", ["N", "Integer"], 1⟩, ⟨"DeclareLocalVar", ["Next", "Integer"], 2⟩,
        ⟨"EqualCondition", ["N", "0"], 3⟩, ⟨"DeclareLocalVar", ["Zero", "Boolean"], 3⟩,
        ⟨"SetLocalVar", ["Next", "N + 1"], 3⟩, ⟨"SetLocalVar", ["Next", "N + 1"], 4⟩] := by
    decide +kernel
  cases hcompile : (Compile.script (.script "Count") branching).run fun _ => .ok none with
  | error cause =>
    rw [hcompile] at hcompiles
    cases hcompiles
  | ok c =>
    obtain ⟨statements, ⟨⟨inputs, is⟩, units⟩, hparse, hcheck, hscript, hruns⟩ :=
      Compile.recompiles_along_runs hcompile
    rw [hparse] at hcalls
    obtain rfl := Statement.eq_of_callsAroundBranch? hcalls
    have hprogram : Except.ok is = .ok branchingInstructions :=
      (congrArg (Except.map fun found : CheckedScript => found.program.statements) hcheck).symm
    obtain rfl := Except.ok.inj hprogram
    have hread : Expression.readNames ExprRef.successor.source = ["N"] := by decide +kernel
    obtain ⟨u, hu, -, -, hcompiled⟩ := hruns NoRepository [.integer 41] _ _ _
      Engine.comes_branching .successor List.mem_cons_self (by rw [hread]; decide +kernel)
    exact ⟨c, inputs, u, rfl, hscript, Engine.comes_branching, hread, by decide +kernel, hu,
      hcompiled⟩

end Scriptorium

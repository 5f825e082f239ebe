import Scriptorium.Proofs.Run.Simulation
import Scriptorium.Proofs.Unit.Loading

/-!
# What a run of a script means

The report on a run of a script is the report on a direct interpretation of its
statements. Names, shared units, payloads and the fast cache leave one trace
alone: a decimal literal is what its numeral denotes in a document.
-/

namespace Scriptorium

open Interpretation

/-- Every decimal literal is read back from a document as it was. -/
def Node.isStorable : Node → Bool
  | .literal (.decimal d) => d.reread = d
  | .binary _ lhs rhs => lhs.isStorable && rhs.isStorable
  | _ => true

theorem Node.reread_eq_self {n : Node} (h : n.isStorable = true) : n.reread = n := by
  induction n with
  | literal v =>
    cases v with
    | decimal d =>
      have hd : d.reread = d := by simpa [isStorable] using h
      rw [reread, hd]
    | _ => rfl
  | binary op lhs rhs ihl ihr =>
    obtain ⟨hl, hr⟩ : lhs.isStorable = true ∧ rhs.isStorable = true := by
      simpa [isStorable] using h
    rw [reread, ihl hl, ihr hr]
  | _ => rfl

/-- Every decimal literal in the texts of a script is read back from a document as it was. -/
def Interpretation.Storable (types : Registry) (body : List Statement) : Prop :=
  ∀ site ∈ allSites .empty body, ∀ tree ∈ written types site.1 site.2, tree.root.isStorable = true

instance (types : Registry) (body : List Statement) : Decidable (Storable types body) :=
  inferInstanceAs (Decidable (∀ site ∈ allSites .empty body, ∀ tree ∈ written types site.1 site.2,
    tree.root.isStorable = true))

theorem Interpretation.script_stored {types : Registry} {body : List Statement}
    (h : Storable types body) (inputs : List Value) :
    script types (stored types) body inputs = script types (written types) body inputs := by
  refine statements_congr body _ _ fun site hsite => ?_
  rw [stored]
  cases htree : written types site.1 site.2 with
  | none => rfl
  | some tree =>
    have hroot := Node.reread_eq_self (h site hsite tree htree)
    rw [Option.map_some, TargetExpr.reread, hroot]

namespace Engine

/-- The program of a script that compiles is given out, and is carried out as its statements are
interpreted with the stored trees. -/
theorem finish_stored {defs : List (QualifiedName × String)} {name : QualifiedName}
    {body : String} {c : ScriptCompilation} (hname : ∀ d, (name.expression d).Readable)
    (hcompile : (Compile.script name body).run (standalone.defining defs).types = .ok c)
    (hload : ∀ u ∈ c.units, ∃ loaded, u.load = .ok loaded) (inputs : List Value) :
    ∃ (p : Compile.Parts (standalone.defining defs).types name body c) (u : ReadyUnit)
      (e : Engine NoRepository) (outcome : Except ExecutionError VariableTable),
      (standalone.defining defs).getExecutable name (some (.script body)) = (.ok u, e) ∧
      u.body = .script p.checked.program ∧
      Interpretation.script (standalone.defining defs).types
        (stored (standalone.defining defs).types) p.statements inputs = outcome.mapError .failed ∧
      e.finish ⟨p.checked.program.statements, .withInputs inputs⟩ = (outcome, e) := by
  obtain ⟨hbare, hreg⟩ := registered_defining defs bare_standalone registered_standalone
  generalize standalone.defining defs = e at *
  obtain ⟨p, u, e', hget, hbody, hbare', htypes, hholds⟩ :=
    getExecutable_script hbare hreg hname hcompile hload
  obtain ⟨⟨declared, hmatches⟩, -, -⟩ := ScriptCheck.check_matches p.check
  obtain ⟨outcome, hmeaning, hfinish⟩ :=
    finish_matches hbare' htypes hholds hmatches [] (.withInputs inputs)
  refine ⟨p, u, e', outcome, hget, hbody, hmeaning, ?_⟩
  rw [List.append_nil] at hfinish
  rw [hfinish]
  cases outcome with
  | error cause => rfl
  | ok t => rw [finishAfter, finish_nil]

/-- A run of a script that compiles ends as the interpretation of its statements with the stored
trees. -/
theorem runSource_stored {defs : List (QualifiedName × String)} {name : QualifiedName}
    {body : String} {statements : List Statement} {c : ScriptCompilation}
    (hname : ∀ d, (name.expression d).Readable)
    (hparse : Script.parseScript body.toList = .ok statements)
    (hcompile : (Compile.script name body).run (standalone.defining defs).types = .ok c)
    (hload : ∀ u ∈ c.units, ∃ loaded, u.load = .ok loaded) (inputs : List Value) :
    ∃ outcome,
      ((standalone.defining defs).runSource name body inputs).1 = .ofOutcome name outcome ∧
      Interpretation.script (standalone.defining defs).types
        (stored (standalone.defining defs).types) statements inputs = outcome.mapError .failed := by
  obtain ⟨p, u, e, outcome, hget, hbody, hmeaning, hfinish⟩ :=
    finish_stored hname hcompile hload inputs
  obtain rfl : statements = p.statements := by
    have hsame := hparse.symm.trans p.parsed
    exact Except.ok.inj hsame
  refine ⟨outcome, ?_, hmeaning⟩
  have hrun : ((standalone.defining defs).execute name (some (.script body)) inputs).1 = outcome := by
    simp only [execute, hget, hbody, UnitBody.script?, hfinish]
  rw [← hrun]
  rfl

/-- A run of a script that compiles ends as the interpretation of its statements with the stored
trees, and with the trees as they are written when all decimal literals are storable. -/
theorem runSource_interpretation {defs : List (QualifiedName × String)} {name : QualifiedName}
    {body : String} {statements : List Statement} {c : ScriptCompilation}
    (hname : ∀ d, (name.expression d).Readable)
    (hparse : Script.parseScript body.toList = .ok statements)
    (hcompile : (Compile.script name body).run (standalone.defining defs).types = .ok c)
    (hload : ∀ u ∈ c.units, ∃ loaded, u.load = .ok loaded) (inputs : List Value) :
    ∃ outcome,
      ((standalone.defining defs).runSource name body inputs).1 = .ofOutcome name outcome ∧
      Interpretation.script (standalone.defining defs).types
        (stored (standalone.defining defs).types) statements inputs = outcome.mapError .failed ∧
      (Storable (standalone.defining defs).types statements →
        Interpretation.script (standalone.defining defs).types
          (written (standalone.defining defs).types) statements inputs =
            outcome.mapError .failed) := by
  obtain ⟨outcome, hrun, hmeaning⟩ := runSource_stored hname hparse hcompile hload inputs
  refine ⟨outcome, hrun, hmeaning, fun hstorable => ?_⟩
  rw [← script_stored hstorable]
  exact hmeaning

/-- A script with an input and a local that is computed from it. -/
def counting : String :=
  "DeclareInputVar(\"N\", \"Integer\");\nDeclareLocalVar(\"Next\", \"Integer\", \"N + 1\");"

theorem runSource_interpretation_counting :
    ∃ statements c, Script.parseScript counting.toList = .ok statements ∧
      (Compile.script (.script "Count") counting).run (standalone.defining []).types = .ok c ∧
      (∀ u ∈ c.units, ∃ loaded, u.load = .ok loaded) ∧
      ∃ outcome,
        ((standalone.defining []).runSource (.script "Count") counting [.integer 41]).1 =
          .ofOutcome (.script "Count") outcome ∧
        Interpretation.script (standalone.defining []).types
          (written (standalone.defining []).types) statements [.integer 41] =
            outcome.mapError .failed := by
  have hcompiles : ((Compile.script (.script "Count") counting).run
      (standalone.defining []).types).toOption.isSome = true := by decide +kernel
  have hloads : Compile.scriptLoads (standalone.defining []).types (.script "Count") counting =
      true := by decide +kernel
  have hstorable : (Script.parseScript counting.toList).toOption.any
      (fun body => decide (Storable (standalone.defining []).types body)) = true := by
    decide +kernel
  obtain ⟨c, hcompile, hload⟩ := Compile.exists_of_scriptLoads hcompiles hloads
  obtain ⟨p⟩ := Compile.script_eq_ok hcompile
  rw [p.parsed] at hstorable
  obtain ⟨outcome, hrun, -, hmeaning⟩ := runSource_interpretation
    (QualifiedName.readable_script "Count") p.parsed hcompile hload [.integer 41]
  exact ⟨p.statements, c, p.parsed, hcompile, hload, outcome, hrun,
    hmeaning (of_decide_eq_true hstorable)⟩

/-- A script with a decimal literal that a document does not give back. -/
def measuring : String := "DeclareLocalVar(\"X\", \"Decimal\", \"92.00864349327219\");"

/-- The text of a local at the end of an interpretation. -/
def finalText (name : String) : Interpretation.Meaning VariableTable → Option String
  | .ok t => (t.localValues.get? name).map Value.text
  | .error _ => none

/-- A decimal literal changes on its way through the payload of its unit. -/
theorem runSource_rereads_decimals :
    ∃ statements c, Script.parseScript measuring.toList = .ok statements ∧
      (Compile.script (.script "Measure") measuring).run (standalone.defining []).types = .ok c ∧
      (∀ u ∈ c.units, ∃ loaded, u.load = .ok loaded) ∧
      finalText "X" (Interpretation.script (standalone.defining []).types
        (written (standalone.defining []).types) statements []) = some "92.00864349327219" ∧
      (((standalone.defining []).runSource (.script "Measure") measuring []).1.locals.get? "X").map
        Value.text = some "92.0086434932722" := by
  have hcompiles : ((Compile.script (.script "Measure") measuring).run
      (standalone.defining []).types).toOption.isSome = true := by decide +kernel
  have hloads : Compile.scriptLoads (standalone.defining []).types (.script "Measure") measuring =
      true := by decide +kernel
  have hwritten : (Script.parseScript measuring.toList).toOption.map
      (fun body => finalText "X" (Interpretation.script (standalone.defining []).types
        (written (standalone.defining []).types) body [])) = some (some "92.00864349327219") := by
    decide +kernel
  have hstored : (Script.parseScript measuring.toList).toOption.map
      (fun body => finalText "X" (Interpretation.script (standalone.defining []).types
        (stored (standalone.defining []).types) body [])) = some (some "92.0086434932722") := by
    decide +kernel
  obtain ⟨c, hcompile, hload⟩ := Compile.exists_of_scriptLoads hcompiles hloads
  obtain ⟨p⟩ := Compile.script_eq_ok hcompile
  rw [p.parsed] at hwritten hstored
  obtain ⟨outcome, hrun, hmeaning⟩ := runSource_stored
    (QualifiedName.readable_script "Measure") p.parsed hcompile hload []
  refine ⟨p.statements, c, p.parsed, hcompile, hload, Option.some.inj hwritten, ?_⟩
  have hfinal : finalText "X" (Interpretation.script (standalone.defining []).types
      (stored (standalone.defining []).types) p.statements []) = some "92.0086434932722" :=
    Option.some.inj hstored
  rw [hmeaning] at hfinal
  rw [hrun]
  cases outcome with
  | error cause => cases hfinal
  | ok t => exact hfinal

end Engine

end Scriptorium

import Scriptorium.Proofs.Engine.Compiled
import Scriptorium.Proofs.Run.Course
import Scriptorium.Proofs.Run.Interpretation

/-!
# Runs and interpretations agree

While all expressions of a script are held by the engine, a run of the script's
program and an interpretation of its statements go side by side: a reference is
evaluated to what its text means behind the declarations in front of it, and so
every instruction does to the variables what its statement does.
-/

namespace Scriptorium

open Interpretation
open ScriptCheck (Site Tests Matches)

/-- The trees that the payloads of expression units hold. -/
def Interpretation.stored (types : Registry) : Trees := fun declared text =>
  (written types declared text).map TargetExpr.reread

theorem Interpretation.written_of_sentence {types : Registry} {declared : VariableTable}
    {text : String} {s : Sentence}
    (h : (Expression.sentence declared text).run types = .ok s) :
    written types declared text =
      (Target.parseTarget s.targetCode.text.toList).toOption := by
  unfold written Expression.translate
  rw [Inquiry.run_bind, h]
  rfl

namespace Engine

section Course

variable {σ : Type} [CodeRepository σ]

/-- The rest of a run behind instructions with this outcome. -/
def finishAfter (e : Engine σ) (rest : List Instruction) :
    Except ExecutionError VariableTable → Except ExecutionError VariableTable × Engine σ
  | .error cause => (.error cause, e)
  | .ok t => e.finish ⟨rest, t⟩

/-- An instruction that changes variables alone is followed by the rest of the run. -/
theorem finish_cons_resume {e : Engine σ} {i : Instruction} {rest : List Instruction}
    {t : VariableTable} {outcome : Except ExecutionError VariableTable}
    (h : e.advance i rest t = resume rest (outcome, e)) :
    e.finish ⟨i :: rest, t⟩ = e.finishAfter rest outcome := by
  rw [finish_cons, h]
  cases outcome <;> rfl

end Course

variable {e : Engine NoRepository} {types : Registry} {units : List PendingExpression}
  {declared declared' t : VariableTable}

theorem onTable_eq (outcome : TableOutcome) :
    onTable outcome = (onVariables outcome).mapError .failed := by
  obtain ⟨_ | _, _⟩ := outcome <;> rfl

/-- A reference is evaluated to what its text means in its place. -/
theorem value_matches (h : e.Holds units) {ref : ExprRef} {kind : ResultKind}
    (hsite : Site types units declared ref.source ref kind) (t : VariableTable) :
    ∃ outcome, e.evaluate ref t = (outcome, e) ∧
      value (stored types) declared t ref.source = outcome.mapError .failed := by
  obtain ⟨x, hx, -, rfl, -, hsentence⟩ := hsite
  obtain ⟨tree, u, hparse, hget, hbody⟩ := h x hx
  have htree : stored types declared x.ref.source = some tree.reread := by
    rw [stored, written_of_sentence hsentence, hparse]
    rfl
  refine ⟨_, evaluate_cached hget hbody t, ?_⟩
  simp only [value, htree]
  cases Evaluate.expr t tree.reread <;> rfl

theorem compareValues_matches (c : Condition) (left right : Value) :
    Interpretation.compareValues c.comparison c.left.source c.right.source left right =
      (compareValues c left right).mapError .failed := by
  unfold Interpretation.compareValues compareValues
  cases c.comparison with
  | equal => rfl
  | lessOrEqual => cases left.compare? right <;> rfl

/-- A condition is decided as its call is. -/
theorem test_matches (h : e.Holds units) {c : Call} {condition : Condition}
    (htests : Tests types units declared c condition) (t : VariableTable) :
    ∃ outcome, e.test condition t = (outcome, e) ∧
      Interpretation.test (stored types) declared t c = outcome.mapError .failed := by
  obtain ⟨_, _, hleft, hright, -⟩ := htests.sites
  obtain ⟨left, heval, hmeaning⟩ := value_matches h hleft t
  obtain ⟨right, heval', hmeaning'⟩ := value_matches h hright t
  have hcomparison : comparison? c.name = some condition.comparison := by
    rw [htests.name]
    cases condition.comparison <;> rfl
  have htest : Interpretation.test (stored types) declared t c = (do
      let left ← value (stored types) declared t condition.left.source
      let right ← value (stored types) declared t condition.right.source
      Interpretation.compareValues condition.comparison condition.left.source
        condition.right.source left right) := by
    unfold Interpretation.test
    rw [hcomparison, htests.args]
  rw [htest, hmeaning, hmeaning']
  unfold test
  rw [heval]
  cases left with
  | error cause => exact ⟨.error cause, rfl, rfl⟩
  | ok left =>
    simp only [heval']
    cases right with
    | error cause => exact ⟨.error cause, rfl, rfl⟩
    | ok right => exact ⟨_, rfl, compareValues_matches condition left right⟩

/-- The declarations behind statements that have been checked. -/
theorem declaredByAll_matches {ss : List Statement} {is : List Instruction}
    (h : Matches types units declared ss is declared') :
    declaredByAll declared ss = declared' := by
  induction h with
  | nil => rfl
  | declareInput _ _ hfresh _ ih =>
    simp only [declaredByAll, declaredBy, declaredByCall, VariableTable.declareInput, hfresh]
    exact ih
  | declareLocal _ _ hfresh _ ih =>
    simp only [declaredByAll, declaredBy, declaredByCall, VariableTable.declareLocal, hfresh]
    exact ih
  | initLocal _ _ hfresh _ _ _ ih =>
    simp only [declaredByAll, declaredBy, declaredByCall, VariableTable.declareLocal, hfresh]
    exact ih
  | setLocal _ _ _ _ ih => exact ih
  | branch _ _ _ _ ih₁ ih₂ ih =>
    rw [declaredByAll, declaredBy, ih₁, ih₂]
    exact ih

/-- What comes after one step goes on side by side when the step is taken side by side. -/
theorem finish_step {m : Meaning VariableTable} {k : VariableTable → Meaning VariableTable}
    {outcome : Except ExecutionError VariableTable} {p : Progress} {is rest : List Instruction}
    (hm : m = outcome.mapError .failed) (hp : e.finish p = e.finishAfter (is ++ rest) outcome)
    (hk : ∀ t, ∃ outcome, k t = outcome.mapError .failed ∧
      e.finish ⟨is ++ rest, t⟩ = e.finishAfter rest outcome) :
    ∃ outcome, (m >>= k) = outcome.mapError .failed ∧ e.finish p = e.finishAfter rest outcome := by
  cases outcome with
  | error cause =>
    refine ⟨.error cause, ?_, hp⟩
    rw [hm]
    rfl
  | ok t =>
    obtain ⟨outcome, hmeaning, hfinish⟩ := hk t
    refine ⟨outcome, ?_, hp.trans hfinish⟩
    rw [hm, ← hmeaning]
    rfl

/-- A run of the instructions of statements ends as the statements mean, and the engine stays as
it is. -/
theorem finish_matches (hbare : e.Bare) (htypes : e.types = types) (hholds : e.Holds units)
    {ss : List Statement} {is : List Instruction} (h : Matches types units declared ss is declared')
    (rest : List Instruction) (t : VariableTable) :
    ∃ outcome, statements types (stored types) declared t ss = outcome.mapError .failed ∧
      e.finish ⟨is ++ rest, t⟩ = e.finishAfter rest outcome := by
  subst htypes
  induction h generalizing rest t with
  | nil => exact ⟨.ok t, rfl, rfl⟩
  | declareInput hname hknown hfresh k ih =>
    simp only [statements, statement, call, declaredBy, declaredByCall,
      VariableTable.declareInput, hfresh]
    exact finish_step (onTable_eq _) (finish_cons_resume rfl) (ih rest)
  | declareLocal hname hknown hfresh k ih =>
    simp only [statements, statement, call, declaredBy, declaredByCall,
      VariableTable.declareLocal, hfresh]
    exact finish_step (onTable_eq _) (finish_cons_resume rfl) (ih rest)
  | @initLocal declared declared' name typeName line ref kind ss is hname hknown hfresh hsite
      haccepts k ih =>
    obtain ⟨outcome, heval, hmeaning⟩ := value_matches hholds hsite t
    simp only [statements, statement, call, declaredBy, declaredByCall, hmeaning]
    have hdeclared : (declared.declareLocal name (.ofTypeName typeName)).2 =
        declared.setLocal name ⟨.ofTypeName typeName, .null⟩ := by
      simp only [VariableTable.declareLocal, hfresh]
      rfl
    rw [hdeclared]
    have hadvance : e.advance (.declareLocal name (.ofTypeName typeName) (some ref)) (is ++ rest) t =
        resume (is ++ rest) (outcome.bind fun v =>
          (onVariables (t.declareLocal name (.ofTypeName typeName))).bind fun t =>
            onVariables (t.assign name v), e) := by
      simp only [advance, declareLocal, heval]
      cases outcome with
      | error cause => rfl
      | ok v => cases onVariables (t.declareLocal name (.ofTypeName typeName)) <;> rfl
    refine finish_step ?_ (finish_cons_resume hadvance) (ih rest)
    cases outcome with
    | error cause => rfl
    | ok v =>
      rw [onTable_eq]
      cases onVariables (t.declareLocal name (.ofTypeName typeName)) with
      | error cause => rfl
      | ok t => exact onTable_eq _
  | @setLocal declared declared' target line ref kind type ss is htarget hsite haccepts k ih =>
    obtain ⟨outcome, heval, hmeaning⟩ := value_matches hholds hsite t
    simp only [statements, statement, call, declaredBy, declaredByCall, hmeaning]
    have hadvance : e.advance (.setLocal target ref) (is ++ rest) t =
        resume (is ++ rest) (outcome.bind fun v =>
          onVariables ((t.assignPath target v).run e.types), e) := by
      simp only [advance, setLocal, heval]
      cases outcome with
      | error cause => rfl
      | ok v =>
        simp only [hbare.inquire]
        rfl
    refine finish_step ?_ (finish_cons_resume hadvance) (ih rest)
    cases outcome with
    | error cause => rfl
    | ok v => exact onTable_eq _
  | @branch declared declared₁ declared₂ declared' c condition thenBranch elseBranch ss is₁ is₂ is
      hcondition hthen helse k ih₁ ih₂ ih =>
    obtain ⟨outcome, htest, hmeaning⟩ := test_matches hholds hcondition t
    simp only [statements, statement, declaredBy, declaredByAll_matches hthen,
      declaredByAll_matches helse, hmeaning]
    have hcons := finish_cons e (.branch condition is₁ is₂) (is ++ rest) t
    simp only [advance, htest] at hcons
    cases outcome with
    | error cause => exact ⟨.error cause, rfl, hcons⟩
    | ok chosen =>
      cases chosen with
      | true =>
        obtain ⟨outcome, hm, hfinish⟩ := ih₁ (is ++ rest) t
        exact finish_step hm (hcons.trans hfinish) (ih rest)
      | false =>
        obtain ⟨outcome, hm, hfinish⟩ := ih₂ (is ++ rest) t
        exact finish_step hm (hcons.trans hfinish) (ih rest)

end Engine

end Scriptorium

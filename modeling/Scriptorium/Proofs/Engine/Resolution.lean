import Scriptorium.Proofs.Engine.Reading

/-!
# Resolving units

What `getExecutable` and `evaluate` do is told by what is found under the name.
A unit that is found is given out; where nothing is stored a source is compiled
and the new unit is found from then on.
-/

namespace Scriptorium.Engine

variable {σ : Type} [CodeRepository σ]

/-- The tree that is evaluated where this is found. -/
def treeOf : QualifiedName × UnitBody → Except ExecutionError TargetExpr
  | (name, body) =>
    match body.expression? with
    | some tree => .ok tree
    | none => .error (.wrongKind name .expression body.kind)

/-- The value of a reference with this tree. -/
def valueOf (ref : ExprRef) (t : VariableTable) (tree : Except ExecutionError TargetExpr) :
    Except ExecutionError Value :=
  tree.bind fun tree => (Evaluate.expr t tree).mapError (.evaluation ref.source)

/-- An engine with the tree of the unit that has been resolved. -/
def resolved (x : Except ExecutionError ReadyUnit × Engine σ) :
    Except ExecutionError (Except ExecutionError TargetExpr) × Engine σ :=
  (x.1.map fun u => treeOf u.content, x.2)

/-- A reference is evaluated with the tree of the unit that is resolved. -/
theorem evaluate_eq (e : Engine σ) (ref : ExprRef) (t : VariableTable) :
    e.evaluate ref t =
      ((resolved (e.getExecutable ref.name (some (.expression ref.source t)))).1.bind (valueOf ref t),
      (resolved (e.getExecutable ref.name (some (.expression ref.source t)))).2) := by
  unfold evaluate
  obtain ⟨outcome, e'⟩ := e.getExecutable ref.name (some (.expression ref.source t))
  cases outcome with
  | error cause => rfl
  | ok u =>
    simp only [resolved, Except.map, Except.bind, treeOf, ReadyUnit.content]
    cases u.body.expression? <;> rfl

theorem found_of_fast {e : Engine σ} {name : QualifiedName} {u : ReadyUnit}
    (h : e.fast.get? name = some u) : e.found name = .ok u.content := by
  unfold found
  rw [h]

/-- A unit that is found nowhere is installed, and is found from then on. -/
theorem install_fresh {e : Engine σ} {u : CompiledUnit} {body : UnitBody}
    (hload : u.load = .ok body) (hnone : e.fast.get? u.name = none) :
    ∃ r e', e.install u = (.ok r, e') ∧ r.content = (u.name, body) ∧
      e'.found u.name = .ok (u.name, body) ∧ ∀ name ≠ u.name, e'.found name = e.found name := by
  have hself : (e.fast.insertNew u.name ⟨u.name, body, e.cache.made⟩).get? u.name =
      some ⟨u.name, body, e.cache.made⟩ := by
    rw [Dictionary.get?_insertNew_self, hnone]
    rfl
  refine ⟨⟨u.name, body, e.cache.made⟩,
    { (e.seed u.name body).2 with compilations := e.compilations + 1 }, ?_, rfl, ?_, ?_⟩
  · simp only [install, hload, seed, GenerationCache.ready, hself, Option.getD_some]
  · simp only [found, fast_seed, hself]
    rfl
  · intro name hname
    have hseed : e.cache.Filled (e.seed u.name body).2.cache :=
      ⟨rfl, fun _ _ h => h, fun _ _ h => .inl h⟩
    simp only [found, fast_seed, Dictionary.get?_insertNew_of_ne _ hname, hseed.found]

variable [SteadyRepository σ] {e : Engine σ} {name : QualifiedName}

/-- What the fast cache does not hold is resolved as it is found. -/
theorem resolveStored_of_missed (h : e.fast.get? name = none) :
    ∃ answer e', e.resolveStored name = (answer, e') ∧ answer.map ReadyUnit.content = e.found name ∧
      Filled e e' := by
  obtain ⟨hanswer, hfilled⟩ := e.resolveStored_spec name
  have hfound : e.found name = e.cache.found name := by
    unfold found
    rw [h]
  exact ⟨_, _, rfl, hanswer.trans hfound.symm, hfilled⟩

/-- A unit that is found is given out. -/
theorem getExecutable_found {content : QualifiedName × UnitBody} (h : e.found name = .ok content)
    (fallback : Option Fallback) :
    ∃ u e', e.getExecutable name fallback = (.ok u, e') ∧ u.content = content ∧ Filled e e' := by
  unfold getExecutable
  cases hfast : e.fast.get? name with
  | some u =>
    rw [found_of_fast hfast] at h
    exact ⟨u, e, rfl, Except.ok.inj h, .refl e⟩
  | none =>
    obtain ⟨answer, e', hresolve, hanswer, hfilled⟩ := resolveStored_of_missed hfast
    rw [h] at hanswer
    cases answer with
    | error cause => cases hanswer
    | ok u =>
      simp only [hresolve]
      exact ⟨u, e', rfl, Except.ok.inj hanswer, hfilled⟩

/-- A unit that is not found is an error, unless nothing is stored under the name. -/
theorem getExecutable_unresolved {cause : ResolveError} (h : e.found name = .error cause)
    (hcause : ∀ other, cause ≠ .notFound other) (fallback : Option Fallback) :
    ∃ e', e.getExecutable name fallback = (.error (.resolve cause), e') ∧ Filled e e' := by
  unfold getExecutable
  cases hfast : e.fast.get? name with
  | some u =>
    rw [found_of_fast hfast] at h
    cases h
  | none =>
    obtain ⟨answer, e', hresolve, hanswer, hfilled⟩ := resolveStored_of_missed hfast
    rw [h] at hanswer
    cases answer with
    | ok u => cases hanswer
    | error cause' =>
      obtain rfl : cause' = cause := Except.error.inj hanswer
      simp only [hresolve]
      refine ⟨e', ?_, hfilled⟩
      cases cause' with
      | notFound other => exact absurd rfl (hcause other)
      | _ => rfl

/-- Where nothing is stored under the name, the fallback is compiled. -/
theorem getExecutable_missing {other : QualifiedName}
    (h : e.found name = .error (.notFound other)) (fallback : Option Fallback) :
    ∃ e', e.getExecutable name fallback = e'.compileMissing name fallback ∧ Filled e e' ∧
      e'.fast.get? name = none := by
  unfold getExecutable
  cases hfast : e.fast.get? name with
  | some u =>
    rw [found_of_fast hfast] at h
    cases h
  | none =>
    obtain ⟨answer, e', hresolve, hanswer, hfilled⟩ := resolveStored_of_missed hfast
    rw [h] at hanswer
    cases answer with
    | ok u => cases hanswer
    | error cause =>
      obtain rfl : cause = .notFound other := Except.error.inj hanswer
      simp only [hresolve]
      exact ⟨e', rfl, hfilled, by rw [hfilled.fast, hfast]⟩

/-- What holds of an engine with more units in its current generation, and after the fallback has
been compiled where nothing is stored, holds after a unit has been asked for. -/
theorem getExecutable_keeps {P : Engine σ → Prop} {fallback : Option Fallback}
    (hfilled : ∀ e', Filled e e' → P e')
    (hcompile : ∀ f ∈ fallback, ∀ other e', e.found name = .error (.notFound other) →
      Filled e e' → P (e'.compile name f).2) :
    P (e.getExecutable name fallback).2 := by
  cases hfound : e.found name with
  | ok content =>
    obtain ⟨u, e', hget, -, hgrown⟩ := getExecutable_found hfound fallback
    rw [hget]
    exact hfilled e' hgrown
  | error cause =>
    by_cases hmissing : ∃ other, cause = .notFound other
    · obtain ⟨other, rfl⟩ := hmissing
      obtain ⟨e', hget, hgrown, -⟩ := getExecutable_missing hfound fallback
      rw [hget]
      cases fallback with
      | none => exact hfilled e' hgrown
      | some f => exact hcompile f rfl other e' hfound hgrown
    · obtain ⟨e', hget, hgrown⟩ :=
        getExecutable_unresolved hfound (fun other hc => hmissing ⟨other, hc⟩) fallback
      rw [hget]
      exact hfilled e' hgrown

end Scriptorium.Engine

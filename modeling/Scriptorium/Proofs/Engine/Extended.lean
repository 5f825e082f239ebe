import Scriptorium.Proofs.Engine.Resolution
import Scriptorium.Proofs.Unit.Compilation

/-!
# Expressions that are compiled while others are looked up

When an expression is resolved its text is compiled only where nothing is found
under its name. So whatever was found before is found afterwards, and no record
type changes.
-/

namespace Scriptorium.Engine

variable {σ : Type} [CodeRepository σ]

/-- The second engine is the first one but for units that have been loaded from the repository and
for code that is new under the name. -/
def Extended (name : QualifiedName) (e e' : Engine σ) : Prop :=
  Filled e e' ∨ (∃ other, e.found name = .error (.notFound other)) ∧
    (∃ body, e'.found name = .ok (name, body) ∧ body.recordType? = none) ∧
    ∀ other ≠ name, e'.found other = e.found other

namespace Extended

variable {e e' : Engine σ} {name : QualifiedName}

/-- What was found is still found. -/
theorem found (h : Extended name e e') {other : QualifiedName} {content : QualifiedName × UnitBody}
    (hfound : e.found other = .ok content) : e'.found other = .ok content := by
  rcases h with hfilled | ⟨⟨missing, hmissing⟩, -, hothers⟩
  · rw [hfilled.found, hfound]
  · have hne : other ≠ name := by
      rintro rfl
      rw [hmissing] at hfound
      cases hfound
    rw [hothers other hne, hfound]

theorem types [SteadyRepository σ] (h : Extended name e e') : e'.types = e.types := by
  rcases h with hfilled | ⟨⟨other, hmissing⟩, ⟨body, hself, hbody⟩, hothers⟩
  · exact hfilled.types
  · funext current
    rw [types_apply, types_apply]
    by_cases heq : current = name
    · subst heq
      rw [hself, hmissing]
      exact congrArg Except.ok hbody
    · rw [hothers current heq]

end Extended

theorem extended_install {e : Engine σ} {name other : QualifiedName} (tree : TargetExpr)
    (source : Option String) (inputs : Option InputManifest)
    (hmissing : e.found name = .error (.notFound other)) :
    Extended name e (e.install (.ofBody name (.expression tree) source inputs)).2 := by
  cases hload : (CompiledUnit.ofBody name (.expression tree) source inputs).load with
  | error cause =>
    simp only [Engine.install, hload]
    exact .inl (.refl e)
  | ok body =>
    have hnone : e.fast.get? name = none := by
      cases hfast : e.fast.get? name with
      | none => rfl
      | some u =>
        rw [found_of_fast hfast] at hmissing
        cases hmissing
    obtain ⟨r, e', hinstall, -, hself, hothers⟩ := install_fresh hload hnone
    have hkind : body.kind = .expression := (CompiledUnit.kind_of_load_ofBody hload).1
    rw [hinstall]
    exact .inr ⟨⟨other, hmissing⟩,
      ⟨body, hself, body.recordType?_eq_none (by rw [hkind]; decide)⟩, hothers⟩

variable [SteadyRepository σ]

/-- An expression that is resolved is compiled only where nothing is found. -/
theorem extended_getExecutable (e : Engine σ) (name : QualifiedName) (text : String)
    (t : VariableTable) :
    Extended name e (e.getExecutable name (some (.expression text t))).2 := by
  refine getExecutable_keeps (fun _ hfilled => .inl hfilled)
    fun f hf other s hfound hfilled => ?_
  obtain rfl : Fallback.expression text t = f := Option.some.inj hf
  obtain ⟨s₁, hinquire, hfilled₁⟩ := s.inquire_spec (Compile.expression name text t)
  have hs := hfilled.trans hfilled₁
  simp only [Engine.compile, hinquire]
  cases hcompile : (Compile.expression name text t).run s.types with
  | error cause => exact .inl hs
  | ok u =>
    obtain ⟨-, tree, -, -, rfl⟩ := Compile.expression_eq_ok hcompile
    have hinstalled := extended_install tree (some text) none (by rw [hs.found, hfound])
    unfold Extended at hinstalled
    simp only [hs.found] at hinstalled
    exact hinstalled.imp hs.trans id

theorem extended_evaluate (e : Engine σ) (ref : ExprRef) (t : VariableTable) :
    Extended ref.name e (e.evaluate ref t).2 := by
  rw [evaluate_eq]
  exact extended_getExecutable e ref.name ref.source t

end Scriptorium.Engine

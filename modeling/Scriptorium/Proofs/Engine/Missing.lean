import Scriptorium.Proofs.Engine.Failure
import Scriptorium.Proofs.Engine.Sources
import Scriptorium.Proofs.Generation.Reading

/-!
# Missing units

A unit that no repository stores is not found by looking for others. Once a
source has been compiled for it, the fast cache holds it under its name, and one
compilation more has been counted.
-/

namespace Scriptorium

variable {σ : Type} {name : QualifiedName} {states : σ → Prop}

/-- In none of these states a repository stores the unit, and loading another unit leads from one
of them to one of them. -/
structure Unstored [CodeRepository σ] (name : QualifiedName) (states : σ → Prop) : Prop where
  kept : ∀ other r, states r → states (CodeRepository.call (.load other) r).2
  missing : ∀ r, states r → (CodeRepository.call (.load name) r).1 = .ok none

/-- The current generation does not hold the unit, and the repository is in one of these states. -/
def GenerationCache.Lacks (c : GenerationCache σ) (name : QualifiedName) (states : σ → Prop) : Prop :=
  c.current.cached? name = none ∧ states c.repository

namespace GenerationCache.Lacks

variable [CodeRepository σ] {c : GenerationCache σ}

/-- Looking for the unit does not even fill the generation. -/
theorem resolveCurrent_self (hstored : Unstored name states) (h : c.Lacks name states) :
    ∃ r, states r ∧ c.resolveCurrent name = (.error (.notFound name), { c with repository := r }) := by
  have hmissing := hstored.missing c.repository h.2
  have hkept := hstored.kept name c.repository h.2
  refine ⟨(CodeRepository.call (.load name) c.repository).2, hkept, ?_⟩
  unfold resolveCurrent load payload
  rw [h.1]
  generalize CodeRepository.call (.load name) c.repository = reply at hmissing
  obtain ⟨answer, r⟩ := reply
  dsimp only at hmissing
  subst hmissing
  rfl

theorem resolveCurrent (hstored : Unstored name states) (h : c.Lacks name states)
    (other : QualifiedName) : (c.resolveCurrent other).2.Lacks name states := by
  by_cases hother : other = name
  · subst hother
    obtain ⟨r, hr, hresolve⟩ := h.resolveCurrent_self hstored
    rw [hresolve]
    exact ⟨h.1, hr⟩
  · have hkept := hstored.kept other c.repository h.2
    unfold GenerationCache.resolveCurrent
    split
    · exact h
    · unfold load payload
      generalize CodeRepository.call (.load other) c.repository = reply at hkept
      rcases reply with ⟨_ | _ | payload, r⟩
      · exact ⟨h.1, hkept⟩
      · exact ⟨h.1, hkept⟩
      · dsimp only
        split
        · exact ⟨h.1, hkept⟩
        · exact ⟨(Generation.cached?_add_of_ne c.current (Ne.symm hother)).trans h.1, hkept⟩

theorem recordType (hstored : Unstored name states) (h : c.Lacks name states)
    (other : QualifiedName) : (c.recordType other).2.Lacks name states := by
  have hresolve := h.resolveCurrent hstored other
  unfold GenerationCache.recordType
  split <;> simp_all only

end GenerationCache.Lacks

namespace Compile

theorem name_targetUnit {text : String} {source : Option String} {u : CompiledUnit}
    (h : targetUnit name text source = .ok u) : u.name = name := by
  unfold targetUnit at h
  split at h
  · cases h
  · cases h
    rfl

theorem always_expression (name : QualifiedName) (text : String) (t : VariableTable) :
    (expression name text t).Always fun outcome => ∀ u, outcome = .ok u → u.name = name := by
  unfold expression
  split
  · exact nofun
  · refine Inquiry.Always.bind (fun translated => ?_) _
    split
    · exact fun u hu => name_targetUnit hu
    · split <;> exact nofun

theorem always_script (name : QualifiedName) (body : String) :
    (script name body).Always fun outcome => ∀ c, outcome = .ok c → c.script.name = name := by
  unfold script
  split
  · exact nofun
  · split
    · exact nofun
    · refine Inquiry.Always.bind (fun checked => ?_) _
      split
      · exact nofun
      · intro c hc
        unfold checkedUnits at hc
        cases hunits : List.mapM pendingUnit _ with
        | error cause =>
          rw [hunits] at hc
          cases hc
        | ok units =>
          rw [hunits] at hc
          cases hc
          rfl

theorem always_recordType (name : QualifiedName) (spec : String) :
    (recordType name spec).Always fun outcome => ∀ u, outcome = .ok u → u.name = name := by
  unfold recordType
  split
  · exact nofun
  · refine Inquiry.Always.bind (fun defined => ?_) _
    split
    · exact nofun
    · rintro u ⟨⟩
      rfl

end Compile

namespace Engine

variable {e e' : Engine σ}

/-- The engine with another state of its repository. -/
def withRepository (e : Engine σ) (repository : σ) : Engine σ :=
  { e with cache := { e.cache with repository } }

theorem install_ok {unit : CompiledUnit} {u : ReadyUnit} (h : e.install unit = (.ok u, e')) :
    e'.fast.get? unit.name = some u ∧ e'.compilations = e.compilations + 1 := by
  unfold install at h
  split at h
  · cases h
  · next body _ =>
    obtain ⟨v, hv, hfirst⟩ := e.contains_seed unit.name body
    rw [← hfirst] at hv
    cases h
    exact ⟨hv, rfl⟩

theorem always_sourceUnits (name : QualifiedName) (f : Fallback) :
    (sourceUnits name f).Always fun outcome => ∀ us u, outcome = .ok (us, u) → u.name = name := by
  cases f with
  | expression text t =>
    refine (Compile.always_expression name text t).map fun outcome h us u hunits => ?_
    obtain ⟨made, hmade, ⟨⟩⟩ := exists_of_map_eq_ok hunits
    exact h _ hmade
  | record spec =>
    refine (Compile.always_recordType name spec).map fun outcome h us u hunits => ?_
    obtain ⟨made, hmade, ⟨⟩⟩ := exists_of_map_eq_ok hunits
    exact h _ hmade
  | script body =>
    refine (Compile.always_script name body).map fun outcome h us u hunits => ?_
    obtain ⟨made, hmade, ⟨⟩⟩ := exists_of_map_eq_ok hunits
    exact h _ hmade

variable [CodeRepository σ]

theorem resolveStored_missing (hstored : Unstored name states) (h : e.cache.Lacks name states) :
    ∃ r, states r ∧ e.resolveStored name = (.error (.notFound name), e.withRepository r) := by
  obtain ⟨r, hr, hresolve⟩ := h.resolveCurrent_self hstored
  refine ⟨r, hr, ?_⟩
  unfold resolveStored
  rw [hresolve]
  rfl

/-- What has been compiled is found in the fast cache. -/
theorem compile_ok {fallback : Fallback} {u : ReadyUnit}
    (h : e.compile name fallback = (.ok u, e')) :
    e'.fast.get? name = some u ∧ e'.compilations = e.compilations + 1 := by
  have hname := (always_sourceUnits name fallback).runWith Engine.recordType e
  have hsame := e.fast_inquire (sourceUnits name fallback)
  rw [compile_eq] at h
  split at h
  · cases h
  · next us unit e₁ hinquire =>
    rw [hinquire] at hsame
    have hcount := compilations_seedAll us e₁
    split at h
    · cases h
    · next e₂ hseed =>
      rw [hseed] at hcount
      rw [← hname us unit (congrArg Prod.fst hinquire), ← hsame.2, ← hcount]
      exact install_ok h

theorem lacks_inquire (hstored : Unstored name states) (h : e.cache.Lacks name states) {α : Type}
    (x : Inquiry α) : (e.inquire x).2.cache.Lacks name states := by
  have hlookup (other : QualifiedName) (s : Engine σ) (hs : s.cache.Lacks name states) :
      (s.recordType other).2.cache.Lacks name states := by
    unfold recordType
    split
    · exact hs
    · exact hs.recordType hstored other
  exact x.runWith_preserves hlookup h

/-- Compiling a source for the unit does not store it. -/
theorem lacks_compile (hstored : Unstored name states) (h : e.cache.Lacks name states)
    (fallback : Fallback) : (e.compile name fallback).2.cache.Lacks name states :=
  compile_keeps (P := fun s => s.cache.Lacks name states) (lacks_inquire hstored h _)
    fun _ _ _ _ _ _ _ _ _ hs => hs

/-- An expression compiles where its tree can be loaded under the name. -/
theorem compile_expression_of_loads {e : Engine NoRepository} (h : e.Bare) {text : String}
    {t : VariableTable} (hname : name.isWellFormed = true)
    (hloads : ((Expression.sentence t text).run e.types).toOption.any (fun s =>
      (Target.parseTarget s.targetCode.text.toList).toOption.any fun tree =>
        (UnitBody.expression tree).loads name) = true) :
    ∃ u, (e.compile name (.expression text t)).1 = .ok u := by
  cases hsentence : (Expression.sentence t text).run e.types with
  | error cause => simp [hsentence, Except.toOption] at hloads
  | ok s =>
    cases hparse : Target.parseTarget s.targetCode.text.toList with
    | error cause => simp [hsentence, hparse, Except.toOption] at hloads
    | ok tree =>
      simp only [hsentence, hparse, Except.toOption, Option.any_some] at hloads
      obtain ⟨body, hload⟩ := (@CompiledUnit.load_iff _ _ (some text) none).mpr hloads
      obtain ⟨u, e', hinstall, -⟩ := install_spec hload e
      refine ⟨u, ?_⟩
      simp only [compile, h.inquire, Compile.expression_of_sentence hname hsentence,
        Compile.targetUnit, hparse, hinstall]

end Engine

end Scriptorium

import Scriptorium.Proofs.Engine.Standalone
import Scriptorium.Proofs.Generation.Reading

/-!
# Reading through an engine

An engine finds a unit in its fast cache, in the current generation or in the
repository. Lookups of record types and computations that ask for them fill the
current generation, and whatever is found under a name stays the same.
-/

namespace Scriptorium.Engine

variable {σ : Type} [CodeRepository σ]

/-- The content that is found under a name when nothing is compiled. -/
def found (e : Engine σ) (name : QualifiedName) :
    Except ResolveError (QualifiedName × UnitBody) :=
  match e.fast.get? name with
  | some u => .ok u.content
  | none => e.cache.found name

/-- The answer to a lookup of a record type under a name where this is found. -/
def lookupOf : Except ResolveError (QualifiedName × UnitBody) → Lookup
  | .ok (_, body) => .ok body.recordType?
  | .error (.repository cause) => .error cause
  | .error _ => .ok none

/-- The engine is another one but for units that have been loaded from the repository. -/
structure Filled (e e' : Engine σ) : Prop where
  cache : e.cache.Filled e'.cache
  fast : e'.fast = e.fast
  compilations : e'.compilations = e.compilations

namespace Filled

variable {e e' e'' : Engine σ}

theorem refl (e : Engine σ) : Filled e e := ⟨.refl _, rfl, rfl⟩

theorem trans (h : Filled e e') (k : Filled e' e'') : Filled e e'' :=
  ⟨h.cache.trans k.cache, k.fast.trans h.fast, k.compilations.trans h.compilations⟩

theorem found (h : Filled e e') (name : QualifiedName) : e'.found name = e.found name := by
  unfold Engine.found
  rw [h.fast, h.cache.found]

end Filled

variable [SteadyRepository σ]

theorem resolveStored_spec (e : Engine σ) (name : QualifiedName) :
    (e.resolveStored name).1.map ReadyUnit.content = e.cache.found name ∧
      Filled e (e.resolveStored name).2 := by
  obtain ⟨hfound, hfilled⟩ := e.cache.resolveCurrent_spec name
  exact ⟨hfound, hfilled, rfl, rfl⟩

theorem recordType_spec (e : Engine σ) (name : QualifiedName) :
    (e.recordType name).1 = lookupOf (e.found name) ∧ Filled e (e.recordType name).2 := by
  unfold recordType found
  cases e.fast.get? name with
  | some u => exact ⟨rfl, .refl e⟩
  | none =>
    obtain ⟨hfound, hfilled⟩ := e.cache.resolveCurrent_spec name
    unfold GenerationCache.recordType
    rw [← hfound]
    cases hresolve : e.cache.resolveCurrent name with
    | mk answer c =>
      rw [hresolve] at hfilled
      rcases answer with cause | u
      · cases cause <;> exact ⟨rfl, hfilled, rfl, rfl⟩
      · exact ⟨rfl, hfilled, rfl, rfl⟩

/-- The record types of an engine are among what it finds. -/
theorem types_apply (e : Engine σ) (name : QualifiedName) : e.types name = lookupOf (e.found name) :=
  (e.recordType_spec name).1

theorem Filled.types {e e' : Engine σ} (h : Filled e e') : e'.types = e.types := by
  funext name
  rw [types_apply, types_apply, h.found]

/-- A computation that asks for record types is answered by name. -/
theorem inquire_spec (e : Engine σ) {α : Type} (x : Inquiry α) :
    ∃ e', e.inquire x = (x.run e.types, e') ∧ Filled e e' := by
  have hanswers (name : QualifiedName) (s : Engine σ) (hs : Filled e s) :
      (recordType name s).1 = e.types name ∧ Filled e (recordType name s).2 := by
    obtain ⟨hanswer, hfilled⟩ := s.recordType_spec name
    rw [← types_apply, hs.types] at hanswer
    exact ⟨hanswer, hs.trans hfilled⟩
  obtain ⟨hrun, hfilled⟩ := Inquiry.runWith_of_answers hanswers x (.refl e)
  exact ⟨_, Prod.ext hrun rfl, hfilled⟩

end Scriptorium.Engine

import Scriptorium.Proofs.Engine.Seeding
import Scriptorium.Proofs.Unit.Records
import Scriptorium.Run.Report

/-!
# Engines without a repository

An engine without a repository finds units in its fast cache alone, so it
answers lookups of record types by name and is not changed by them. While
record types are defined, the cache holds nothing but record types, each under
its own name.
-/

namespace Scriptorium.Engine

/-- The answers of an engine to lookups of record types. -/
def types {σ : Type} [CodeRepository σ] (e : Engine σ) : Registry := fun name => (e.recordType name).1

variable {e : Engine NoRepository}

/-- Nothing has been loaded from a repository. -/
def Bare (e : Engine NoRepository) : Prop := ∀ name, e.cache.current.cached? name = none

theorem bare_standalone : standalone.Bare := fun _ => rfl

theorem Grown.bare {e' : Engine NoRepository} (h : Grown e e') (k : e.Bare) : e'.Bare := by
  intro name
  rw [h.current]
  exact k name

namespace Bare

theorem resolveStored (h : e.Bare) (name : QualifiedName) :
    e.resolveStored name = (.error (.notFound name), e) := by
  simp only [Engine.resolveStored, GenerationCache.resolveCurrent, h name]
  rfl

theorem types_eq (h : e.Bare) (name : QualifiedName) :
    e.types name = .ok ((e.fast.get? name).bind fun u => u.body.recordType?) := by
  unfold types recordType
  cases hget : e.fast.get? name with
  | some u => rfl
  | none =>
    simp only [GenerationCache.recordType, GenerationCache.resolveCurrent, h name]
    rfl

theorem recordType_snd (h : e.Bare) (name : QualifiedName) : (e.recordType name).2 = e := by
  unfold recordType
  cases hget : e.fast.get? name with
  | some u => rfl
  | none =>
    simp only [GenerationCache.recordType, GenerationCache.resolveCurrent, h name]
    rfl

/-- A computation that asks for record types is answered by name and changes nothing. -/
theorem inquire (h : e.Bare) {α : Type} (x : Inquiry α) : e.inquire x = (x.run e.types, e) := by
  have hanswers : ∀ name s, s = e →
      (recordType name s).1 = e.types name ∧ (recordType name s).2 = e := by
    rintro name s rfl
    exact ⟨rfl, h.recordType_snd name⟩
  obtain ⟨hfst, hsnd⟩ := Inquiry.runWith_of_answers hanswers x rfl
  exact Prod.ext hfst hsnd

theorem getExecutable_cached {name : QualifiedName} {u : ReadyUnit}
    (h : e.fast.get? name = some u) (fallback : Option Fallback) :
    e.getExecutable name fallback = (.ok u, e) := by
  simp only [getExecutable, h]

theorem getExecutable_missing (h : e.Bare) {name : QualifiedName}
    (hname : e.fast.get? name = none) (fallback : Option Fallback) :
    e.getExecutable name fallback = e.compileMissing name fallback := by
  simp only [getExecutable, hname, h.resolveStored]

end Bare

/-- The fast cache holds record types alone, each under its own name. The record types of their
fields are there too. -/
def Registered (e : Engine NoRepository) : Prop :=
  ∀ name u, e.fast.get? name = some u →
    name.kind = .recordType ∧ ∃ t, u.body = .record t ∧ t.name = name ∧
      ∀ f ∈ t.fields, f.type.Known e.types

theorem registered_standalone : standalone.Registered := fun _ _ h => by cases h

/-- The engine after record types have been defined one after the other, whether or not each
definition succeeded. -/
def defining (e : Engine NoRepository) (defs : List (QualifiedName × String)) :
    Engine NoRepository :=
  defs.foldl (fun e d => (e.defineRecord d.1 d.2).2) e

/-- A definition changes nothing, or adds the record type that was compiled under a name that had
none. -/
theorem defineRecord_cases (h : e.Bare) (name : QualifiedName) (spec : String) :
    (e.defineRecord name spec).2 = e ∨
      ∃ defined u, (∀ f ∈ defined, Compile.Grounded e.types name f.type) ∧
        name.kind = .recordType ∧ e.fast.get? name = none ∧
        e.install (.ofBody name (.record ⟨name, defined⟩) (some spec) none) =
          (.ok u, (e.defineRecord name spec).2) ∧
        (CompiledUnit.ofBody name (.record ⟨name, defined⟩) (some spec) none).load =
          .ok (.record ⟨name, defined⟩) := by
  have hdefine : e.defineRecord name spec = e.getExecutable name (some (.record spec)) := rfl
  rw [hdefine]
  cases hget : e.fast.get? name with
  | some u =>
    rw [Bare.getExecutable_cached hget]
    exact .inl rfl
  | none =>
    rw [h.getExecutable_missing hget]
    simp only [compileMissing, compile, h.inquire]
    cases hcompile : (Compile.recordType name spec).run e.types with
    | error cause => exact .inl rfl
    | ok unit =>
      obtain ⟨defined, hfields, rfl⟩ := Compile.recordType_eq_ok hcompile
      have hdefined := Compile.fields_eq_ok hfields nofun
      cases hload : (CompiledUnit.ofBody name (.record ⟨name, defined⟩) (some spec) none).load with
      | error cause =>
        simp only [install, hload]
        exact .inl trivial
      | ok body =>
        obtain ⟨u, e', hinstall, -⟩ := install_spec hload e
        obtain ⟨hkind, rfl⟩ := CompiledUnit.load_record (fun f hf => (hdefined f hf).readable) hload
        refine .inr ⟨defined, u, hdefined, hkind, trivial, ?_, hload⟩
        simp only [hinstall]

/-- Record types that were registered stay so while the fast cache grows. -/
theorem Grown.known {e' : Engine NoRepository} (h : Grown e e') (k : e.Bare) {type : SemanticType}
    (hknown : type.Known e.types) : type.Known e'.types := by
  cases type with
  | record name =>
    obtain ⟨t, ht⟩ := hknown
    rw [k.types_eq, Except.ok.injEq] at ht
    obtain ⟨u, hu, hbody⟩ := Option.bind_eq_some_iff.mp ht
    refine ⟨t, ?_⟩
    rw [(h.bare k).types_eq, h.kept name u hu, Option.bind_some, hbody]
  | _ => exact trivial

/-- A definition leaves an engine bare and adds no more than a record type under its own name. -/
theorem registered_defineRecord (h : e.Bare) (hreg : e.Registered) (name : QualifiedName)
    (spec : String) :
    (e.defineRecord name spec).2.Bare ∧ (e.defineRecord name spec).2.Registered := by
  rcases defineRecord_cases h name spec with hsame | ⟨defined, u, hdefined, hkind, hnone, hinstall, hload⟩
  · rw [hsame]
    exact ⟨h, hreg⟩
  · generalize (e.defineRecord name spec).2 = e' at hinstall ⊢
    obtain ⟨r, e'', hinstall', hgrown, hheld, hbody, hfound⟩ := install_spec hload e
    rw [hinstall] at hinstall'
    cases hinstall'
    have hbare := hgrown.bare h
    refine ⟨hbare, fun other v hv => ?_⟩
    rcases hfound other v hv with hv | ⟨hsame, hv⟩
    · obtain ⟨hother, t, ht, hname, hknown⟩ := hreg other v hv
      exact ⟨hother, t, ht, hname, fun f hf => hgrown.known h (hknown f hf)⟩
    · have hother : other = name := hsame
      subst hother
      refine ⟨hkind, _, hv, rfl, fun f hf => ?_⟩
      rcases (hdefined f hf).2 with hknown | hself
      · exact hgrown.known h hknown
      · rw [hself]
        refine ⟨⟨other, defined⟩, ?_⟩
        have hget : e'.fast.get? other = some u := hheld
        rw [hbare.types_eq, hget, Option.bind_some, hbody hnone]
        rfl

theorem registered_defining (defs : List (QualifiedName × String)) (h : e.Bare)
    (hreg : e.Registered) : (e.defining defs).Bare ∧ (e.defining defs).Registered := by
  unfold defining
  induction defs generalizing e with
  | nil => exact ⟨h, hreg⟩
  | cons d defs ih =>
    obtain ⟨h', hreg'⟩ := registered_defineRecord h hreg d.1 d.2
    exact ih h' hreg'

end Scriptorium.Engine

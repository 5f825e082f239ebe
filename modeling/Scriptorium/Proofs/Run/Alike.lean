import Scriptorium.Proofs.Engine.Extended
import Scriptorium.Proofs.Run.Lockstep

/-!
# Engines that a run cannot tell apart

Two engines are alike for a program when each of its expressions is found in
both with one tree, or is missing from both in the same way, and when both have
the same record types. Where an expression is missing both compile its text to
the same unit, so they stay alike and runs of the program end alike.

The second engine may also have lost units that the first one still has. It
compiles the text of such a unit when it is asked for it, and a run cannot tell
as long as the unit comes of its text again.
-/

namespace Scriptorium.Engine

variable {σ τ : Type} [CodeRepository σ] [CodeRepository τ]

section Course

variable [SteadyRepository σ] {e e' : Engine σ} {p p' : Progress}

/-- The record types stay the same in the course of a run. -/
theorem Reaches.types (h : Reaches e p e' p') : e'.types = e.types :=
  Reaches.keeps (P := fun s => s.types = e.types)
    (fun s ref t hs => (extended_evaluate s ref t).types.trans hs)
    (fun s name hs => (s.recordType_spec name).2.types.trans hs) rfl h

/-- What is found is still found in the course of a run. -/
theorem Reaches.found (h : Reaches e p e' p') {name : QualifiedName}
    {content : QualifiedName × UnitBody} (hfound : e.found name = .ok content) :
    e'.found name = .ok content :=
  Reaches.keeps (P := fun s => s.found name = .ok content)
    (fun s ref t hs => (extended_evaluate s ref t).found hs)
    (fun s other hs => by rw [(s.recordType_spec other).2.found, hs]) hfound h

end Course

/-- The first engine finds one of these units under the name, and the second one finds nothing. -/
def Lost (lost : List CompiledUnit) (e : Engine σ) (e' : Engine τ) (name : QualifiedName) : Prop :=
  ∃ u ∈ lost, u.name = name ∧ ∃ body, u.load = .ok body ∧ e.found name = .ok (name, body) ∧
    ∃ other, e'.found name = .error (.notFound other)

/-- The same trees are found under these names, but for lost units, and the same record types under
all names. -/
structure Alike (lost : List CompiledUnit) (names : List QualifiedName) (e : Engine σ)
    (e' : Engine τ) : Prop where
  found : ∀ name ∈ names,
    (e.found name).map treeOf = (e'.found name).map treeOf ∨ Lost lost e e' name
  types : e.types = e'.types

namespace Alike

variable [SteadyRepository σ] [SteadyRepository τ] {lost : List CompiledUnit}
  {names : List QualifiedName} {e e₁ : Engine σ} {e' e₁' : Engine τ} {name : QualifiedName}

theorem filled (h : Alike lost names e e') (k : Filled e e₁) (k' : Filled e' e₁') :
    Alike lost names e₁ e₁' where
  found name hname := by
    unfold Lost
    rw [k.found, k'.found]
    exact h.found name hname
  types := by rw [k.types, k'.types, h.types]

/-- What is found under one name of both engines is changed, and nothing under another one. -/
theorem revised (h : Alike lost names e e') (name : QualifiedName)
    (hself : (e₁.found name).map treeOf = (e₁'.found name).map treeOf)
    (htypes : lookupOf (e₁.found name) = lookupOf (e₁'.found name))
    (hothers : ∀ other ≠ name, e₁.found other = e.found other)
    (hothers' : ∀ other ≠ name, e₁'.found other = e'.found other) : Alike lost names e₁ e₁' where
  found other hother := by
    by_cases heq : other = name
    · subst heq
      exact .inl hself
    · unfold Lost
      rw [hothers other heq, hothers' other heq]
      exact h.found other hother
  types := by
    funext other
    rw [types_apply, types_apply]
    by_cases heq : other = name
    · subst heq
      exact htypes
    · rw [hothers other heq, hothers' other heq, ← types_apply, ← types_apply, h.types]

/-- A unit that neither engine has is installed in both. -/
theorem install (h : Alike lost names e e') {u : CompiledUnit} {body : UnitBody}
    (hload : u.load = .ok body) (hnone : e.fast.get? u.name = none)
    (hnone' : e'.fast.get? u.name = none) :
    ∃ r r' s s', e.install u = (.ok r, s) ∧ e'.install u = (.ok r', s') ∧
      r.content = r'.content ∧ Alike lost names s s' := by
  obtain ⟨r, s, hinstall, hcontent, hself, hothers⟩ := install_fresh hload hnone
  obtain ⟨r', s', hinstall', hcontent', hself', hothers'⟩ := install_fresh hload hnone'
  refine ⟨r, r', s, s', hinstall, hinstall', hcontent.trans hcontent'.symm, ?_⟩
  refine h.revised u.name ?_ ?_ hothers hothers' <;> rw [hself, hself']

/-- A unit that one engine has and the other one has lost is installed in the other one. -/
theorem restore (h : Alike lost names e e') {u : CompiledUnit} {body : UnitBody}
    (hload : u.load = .ok body) (hfound : e.found u.name = .ok (u.name, body))
    (hnone' : e'.fast.get? u.name = none) :
    ∃ r' s', e'.install u = (.ok r', s') ∧ r'.content = (u.name, body) ∧
      Alike lost names e s' := by
  obtain ⟨r', s', hinstall', hcontent', hself', hothers'⟩ := install_fresh hload hnone'
  refine ⟨r', s', hinstall', hcontent', ?_⟩
  refine h.revised u.name ?_ ?_ (fun _ _ => rfl) hothers' <;> rw [hself', hfound]

/-- The text of an expression that is missing from both engines is compiled in both. -/
theorem compile (h : Alike lost names e e') (hnone : e.fast.get? name = none)
    (hnone' : e'.fast.get? name = none) (text : String) (t : VariableTable) :
    Agree (Alike lost names) (resolved (e.compileMissing name (some (.expression text t))))
      (resolved (e'.compileMissing name (some (.expression text t)))) := by
  obtain ⟨s, hinquire, hfilled⟩ := e.inquire_spec (Compile.expression name text t)
  obtain ⟨s', hinquire', hfilled'⟩ := e'.inquire_spec (Compile.expression name text t)
  have hs := h.filled hfilled hfilled'
  simp only [compileMissing, Engine.compile, hinquire, hinquire', ← h.types]
  cases hcompile : (Compile.expression name text t).run e.types with
  | error cause => exact ⟨rfl, hs⟩
  | ok u =>
    dsimp only
    cases hload : u.load with
    | error cause =>
      simp only [Engine.install, hload]
      exact ⟨rfl, hs⟩
    | ok body =>
      obtain ⟨-, tree, -, -, hu⟩ := Compile.expression_eq_ok hcompile
      have hname : u.name = name := congrArg CompiledUnit.name hu
      obtain ⟨r, r', s₁, s₁', hinstall, hinstall', hcontent, hnext⟩ :=
        hs.install hload (by rw [hname, hfilled.fast, hnone]) (by rw [hname, hfilled'.fast, hnone'])
      simp only [hinstall, hinstall', resolved]
      exact ⟨congrArg (fun content => Except.ok (treeOf content)) hcontent, hnext⟩

/-- An expression for which both engines have the same is resolved alike. -/
theorem getExecutable_same (h : Alike lost names e e')
    (hsame : (e.found name).map treeOf = (e'.found name).map treeOf) (text : String)
    (t : VariableTable) :
    Agree (Alike lost names) (resolved (e.getExecutable name (some (.expression text t))))
      (resolved (e'.getExecutable name (some (.expression text t)))) := by
  cases hfound : e.found name with
  | ok content =>
    cases hfound' : e'.found name with
    | error cause =>
      rw [hfound, hfound'] at hsame
      cases hsame
    | ok content' =>
      rw [hfound, hfound'] at hsame
      obtain ⟨u, s, hget, rfl, hfilled⟩ := getExecutable_found hfound (some (.expression text t))
      obtain ⟨u', s', hget', rfl, hfilled'⟩ :=
        getExecutable_found hfound' (some (.expression text t))
      rw [hget, hget']
      exact ⟨congrArg Except.ok (Except.ok.inj hsame), h.filled hfilled hfilled'⟩
  | error cause =>
    cases hfound' : e'.found name with
    | ok content =>
      rw [hfound, hfound'] at hsame
      cases hsame
    | error cause' =>
      rw [hfound, hfound'] at hsame
      obtain rfl : cause = cause' := Except.error.inj hsame
      by_cases hmissing : ∃ other, cause = .notFound other
      · obtain ⟨other, rfl⟩ := hmissing
        obtain ⟨s, hget, hfilled, hnone⟩ :=
          getExecutable_missing hfound (some (.expression text t))
        obtain ⟨s', hget', hfilled', hnone'⟩ :=
          getExecutable_missing hfound' (some (.expression text t))
        rw [hget, hget']
        exact (h.filled hfilled hfilled').compile hnone hnone' text t
      · have hcause : ∀ other, cause ≠ .notFound other := fun other hc => hmissing ⟨other, hc⟩
        obtain ⟨s, hget, hfilled⟩ :=
          getExecutable_unresolved hfound hcause (some (.expression text t))
        obtain ⟨s', hget', hfilled'⟩ :=
          getExecutable_unresolved hfound' hcause (some (.expression text t))
        rw [hget, hget']
        exact ⟨rfl, h.filled hfilled hfilled'⟩

/-- An expression that one engine has and the other one has lost is resolved alike when its text
compiles to the lost unit. -/
theorem getExecutable_lost (h : Alike lost names e e') {u : CompiledUnit} {body : UnitBody}
    (hload : u.load = .ok body) (hfound : e.found u.name = .ok (u.name, body))
    {other : QualifiedName} (hmissing : e'.found u.name = .error (.notFound other)) {text : String}
    {t : VariableTable} (hcompile : (Compile.expression u.name text t).run e.types = .ok u) :
    Agree (Alike lost names) (resolved (e.getExecutable u.name (some (.expression text t))))
      (resolved (e'.getExecutable u.name (some (.expression text t)))) := by
  obtain ⟨v, s, hget, hcontent, hfilled⟩ := getExecutable_found hfound (some (.expression text t))
  obtain ⟨s', hget', hfilled', hnone'⟩ :=
    getExecutable_missing hmissing (some (.expression text t))
  obtain ⟨s₁, hinquire, hfilled₁⟩ := s'.inquire_spec (Compile.expression u.name text t)
  obtain ⟨r, s₂, hinstall, hrcontent, hnext⟩ :=
    (h.filled hfilled (hfilled'.trans hfilled₁)).restore hload (by rw [hfilled.found, hfound])
      (by rw [hfilled₁.fast, hnone'])
  have htypes : s'.types = e.types := by rw [hfilled'.types, h.types]
  rw [hget, hget']
  simp only [compileMissing, Engine.compile, hinquire, htypes, hcompile, hinstall, resolved]
  have hsame : v.content = r.content := hcontent.trans hrcontent.symm
  exact ⟨congrArg (fun content => Except.ok (treeOf content)) hsame, hnext⟩

/-- The text of an expression compiles to the lost unit of its name, if there is one. -/
def Recompiles (types : Registry) (lost : List CompiledUnit) (ref : ExprRef) (t : VariableTable) :
    Prop :=
  ∀ u ∈ lost, u.name = ref.name → (Compile.expression ref.name ref.source t).run types = .ok u

/-- Engines that are alike for all names in a program run it in lockstep, as long as the lost units
can be compiled again. -/
theorem lockstep (types : Registry) (lost : List CompiledUnit) (names : List QualifiedName) :
    Lockstep (fun ref t => ref.name ∈ names ∧ Recompiles types lost ref t)
      fun (e : Engine σ) (e' : Engine τ) => e.types = types ∧ Alike lost names e e' where
  evaluate {e e'} h ref t hat := by
    obtain ⟨rfl, h⟩ := h
    obtain ⟨hname, hrecompiles⟩ := hat
    have hresolved : Agree (Alike lost names)
        (resolved (e.getExecutable ref.name (some (.expression ref.source t))))
        (resolved (e'.getExecutable ref.name (some (.expression ref.source t)))) := by
      rcases h.found ref.name hname with hsame | ⟨u, hu, heq, body, hload, hfound, other, hmissing⟩
      · exact h.getExecutable_same hsame ref.source t
      · have hcompile := hrecompiles u hu heq
        rw [← heq] at hfound hmissing hcompile ⊢
        exact h.getExecutable_lost hload hfound hmissing hcompile
    rw [evaluate_eq, evaluate_eq]
    exact ⟨congrArg (·.bind (valueOf ref t)) hresolved.1,
      (extended_getExecutable e ref.name ref.source t).types, hresolved.2⟩
  recordType {e e'} h name := by
    obtain ⟨rfl, h⟩ := h
    obtain ⟨hanswer, hfilled⟩ := e.recordType_spec name
    obtain ⟨hanswer', hfilled'⟩ := e'.recordType_spec name
    refine ⟨?_, hfilled.types, h.filled hfilled hfilled'⟩
    rw [hanswer, hanswer', ← types_apply, ← types_apply, h.types]

/-- Engines that are alike for all names in a program run it alike. -/
theorem finish_eq (h : Alike [] names e e') {p : Progress}
    (hrefs : ∀ ref ∈ Instruction.allRefs p.remaining, ref.name ∈ names) :
    (e.finish p).1 = (e'.finish p).1 :=
  ((lockstep e.types [] names).finish ⟨rfl, h⟩ fun _ _ _ _ hrun ref href =>
    ⟨hrefs ref (ahead_refs e p _ _ _ _ hrun ref href), nofun⟩).1

end Alike

end Scriptorium.Engine

import Scriptorium.Proofs.Engine.Standalone
import Scriptorium.Proofs.Unit.Loading

/-!
# What failed resolutions leave behind

An engine that fails to give out a unit has counted no compilation and has
replaced nothing in its fast cache. Units can be added by a failure in one case
alone: when a script compiles and a unit of it does not load, the expressions in
front of that unit have been cached already and stay there.
-/

namespace Scriptorium.Engine

variable {σ : Type} {e e' e'' : Engine σ}

/-- The fast cache is the one of before with some units added, as far as their names were free. -/
structure Adds (us : List CompiledUnit) (e e' : Engine σ) : Prop where
  kept : ∀ name u, e.fast.get? name = some u → e'.fast.get? name = some u
  added : ∀ name u, e'.fast.get? name = some u →
    e.fast.get? name = some u ∨ ∃ v ∈ us, v.name = name ∧ v.load = .ok u.body
  held : ∀ v ∈ us, ∃ u, e'.fast.get? v.name = some u

theorem adds_nil (h : e'.fast = e.fast) : Adds [] e e' := by
  refine ⟨fun name u hu => ?_, fun name u hu => ?_, nofun⟩
  · rwa [h]
  · rw [h] at hu
    exact .inl hu

theorem Adds.of_fast {us : List CompiledUnit} (h : Adds us e' e'') (hfast : e'.fast = e.fast) :
    Adds us e e'' := by
  obtain ⟨hkept, hadded, hheld⟩ := h
  rw [hfast] at hkept hadded
  exact ⟨hkept, hadded, hheld⟩

/-- Units are cached up to the first that does not load. -/
theorem seedAll_error {us : List CompiledUnit} {cause : CompileError}
    (h : e.seedAll us = (.error cause, e')) :
    ∃ before failing after, us = before ++ failing :: after ∧ failing.load = .error cause ∧
      e.seedAll before = (.ok (), e') := by
  induction us generalizing e with
  | nil => cases h
  | cons u us ih =>
    unfold seedAll at h
    cases hload : u.load with
    | error fault =>
      rw [hload] at h
      cases h
      exact ⟨[], u, us, rfl, hload, rfl⟩
    | ok body =>
      rw [hload] at h
      obtain ⟨before, failing, after, rfl, hfailing, hseed⟩ := ih h
      refine ⟨u :: before, failing, after, rfl, hfailing, ?_⟩
      unfold seedAll
      rw [hload]
      exact hseed

theorem seedAll_ok {us : List CompiledUnit} (h : e.seedAll us = (.ok (), e')) :
    ∀ v ∈ us, ∃ body, v.load = .ok body := by
  induction us generalizing e with
  | nil => exact nofun
  | cons u us ih =>
    unfold seedAll at h
    cases hload : u.load with
    | error fault =>
      rw [hload] at h
      cases h
    | ok body =>
      rw [hload] at h
      intro v hv
      rcases List.mem_cons.mp hv with rfl | hv
      · exact ⟨body, hload⟩
      · exact ih h v hv

theorem compilations_seedAll (us : List CompiledUnit) (e : Engine σ) :
    (e.seedAll us).2.compilations = e.compilations :=
  seedAll_keeps (P := fun s => s.compilations = e.compilations) (fun _ _ _ _ _ hs => hs) rfl

theorem adds_seedAll {us : List CompiledUnit} (hfast : e'.fast = e.fast)
    (h : e'.seedAll us = (.ok (), e'')) :
    Adds us e e'' ∧ e''.compilations = e'.compilations := by
  obtain ⟨s, hseed, hgrown, hnew, hheld⟩ := seedAll_spec us (seedAll_ok h) e'
  rw [h] at hseed
  obtain ⟨-, rfl⟩ := Prod.mk.inj hseed
  rw [hfast] at hnew
  have hcompilations := compilations_seedAll us e'
  rw [h] at hcompilations
  exact ⟨⟨fun name u hu => hgrown.kept name u (hfast ▸ hu), hnew, hheld⟩, hcompilations⟩

theorem install_error {u : CompiledUnit} {cause : CompileError}
    (h : e.install u = (.error cause, e')) : e' = e ∧ u.load = .error cause := by
  unfold install at h
  cases hload : u.load with
  | error fault =>
    rw [hload] at h
    cases h
    exact ⟨rfl, rfl⟩
  | ok body =>
    rw [hload] at h
    cases h

variable [CodeRepository σ] {name : QualifiedName}

/-- Lookups of record types leave the fast cache as it is. -/
theorem fast_recordType (name : QualifiedName) (e : Engine σ) :
    (e.recordType name).2.fast = e.fast ∧ (e.recordType name).2.compilations = e.compilations := by
  unfold recordType
  split <;> exact ⟨rfl, rfl⟩

theorem fast_inquire {α : Type} (e : Engine σ) (x : Inquiry α) :
    (e.inquire x).2.fast = e.fast ∧ (e.inquire x).2.compilations = e.compilations := by
  have hlookup (name : QualifiedName) (s : Engine σ)
      (hs : s.fast = e.fast ∧ s.compilations = e.compilations) :
      (s.recordType name).2.fast = e.fast ∧ (s.recordType name).2.compilations = e.compilations := by
    obtain ⟨hfast, hcount⟩ := fast_recordType name s
    exact ⟨hfast.trans hs.1, hcount.trans hs.2⟩
  exact x.runWith_preserves hlookup ⟨rfl, rfl⟩

/-- Units that a failure leaves behind: the script that was to be compiled has been compiled to
them, and to a unit behind them that does not load. -/
def LeftBehind (e : Engine σ) (name : QualifiedName) (fallback : Option Fallback)
    (cause : ExecutionError) (us : List CompiledUnit) : Prop :=
  ∃ body c failing after fault, fallback = some (.script body) ∧
    (e.inquire (Compile.script name body)).1 = .ok c ∧
    c.expressions ++ [c.script] = us ++ failing :: after ∧
    failing.load = .error fault ∧ cause = .compile fault

/-- An expression or a record type that is not compiled leaves nothing behind. -/
theorem installed_error {x : Inquiry (Except CompileError CompiledUnit)} {cause : CompileError}
    (h : (match e.inquire x with
      | (.error cause, e) => (.error cause, e)
      | (.ok u, e) => e.install u) = (.error cause, e')) :
    e'.fast = e.fast ∧ e'.compilations = e.compilations := by
  have hsame := e.fast_inquire x
  split at h
  · next hinquire =>
    rw [hinquire] at hsame
    cases h
    exact hsame
  · next hinquire =>
    rw [hinquire] at hsame
    obtain ⟨rfl, -⟩ := install_error h
    exact hsame

theorem compile_error {fallback : Fallback} {cause : CompileError}
    (h : e.compile name fallback = (.error cause, e')) :
    e'.compilations = e.compilations ∧
      ∃ us, Adds us e e' ∧ (us = [] ∨ e.LeftBehind name (some fallback) (.compile cause) us) := by
  cases fallback with
  | expression text t =>
    obtain ⟨hfast, hcount⟩ := installed_error h
    exact ⟨hcount, [], adds_nil hfast, .inl rfl⟩
  | record spec =>
    obtain ⟨hfast, hcount⟩ := installed_error h
    exact ⟨hcount, [], adds_nil hfast, .inl rfl⟩
  | script body =>
    have hsame := e.fast_inquire (Compile.script name body)
    unfold compile at h
    cases hinquire : e.inquire (Compile.script name body) with
    | mk outcome e₁ =>
      rw [hinquire] at hsame
      obtain ⟨hfast, hcount⟩ := hsame
      have hcompiled : (e.inquire (Compile.script name body)).1 = outcome := by rw [hinquire]
      simp only [hinquire] at h
      cases outcome with
      | error cause' =>
        cases h
        exact ⟨hcount, [], adds_nil hfast, .inl rfl⟩
      | ok c =>
        dsimp only at h
        split at h
        · next cause' e₂ hseed =>
          cases h
          obtain ⟨before, failing, after, hunits, hfailing, hbefore⟩ := seedAll_error hseed
          obtain ⟨hadds, hsame⟩ := adds_seedAll hfast hbefore
          refine ⟨hsame.trans hcount, before, hadds, .inr ?_⟩
          refine ⟨body, c, failing, after ++ [c.script], cause, rfl, hcompiled, ?_, hfailing, rfl⟩
          rw [hunits, List.append_assoc, List.cons_append]
        · next e₂ hseed =>
          obtain ⟨rfl, hfailing⟩ := install_error h
          obtain ⟨hadds, hsame⟩ := adds_seedAll hfast hseed
          exact ⟨hsame.trans hcount, c.expressions, hadds,
            .inr ⟨body, c, c.script, [], cause, rfl, hcompiled, rfl, hfailing, rfl⟩⟩

theorem compileMissing_error {fallback : Option Fallback} {cause : ExecutionError}
    (h : e.compileMissing name fallback = (.error cause, e')) :
    e'.compilations = e.compilations ∧
      ∃ us, Adds us e e' ∧ (us = [] ∨ e.LeftBehind name fallback cause us) := by
  cases fallback with
  | none =>
    cases h
    exact ⟨rfl, [], adds_nil rfl, .inl rfl⟩
  | some f =>
    cases hcompile : e.compile name f with
    | mk outcome e₁ =>
      simp only [compileMissing, hcompile] at h
      cases outcome with
      | ok u => cases h
      | error fault =>
        cases h
        exact compile_error hcompile

/-- A unit that cannot be given out leaves the fast cache as it was, but for the expressions of a
script in front of the first of its units that does not load. -/
theorem getExecutable_error {fallback : Option Fallback} {cause : ExecutionError}
    (h : e.getExecutable name fallback = (.error cause, e')) :
    e'.compilations = e.compilations ∧
      (∀ values, e.execute name fallback values = (.error cause, e')) ∧
      ∃ us, Adds us e e' ∧
        (us = [] ∨ (e.resolveStored name).2.LeftBehind name fallback cause us) := by
  have hexecute : ∀ values, e.execute name fallback values = (.error cause, e') := by
    intro values
    unfold execute
    rw [h]
  have hfast : (e.resolveStored name).2.fast = e.fast := rfl
  have hcount : (e.resolveStored name).2.compilations = e.compilations := rfl
  unfold getExecutable at h
  split at h
  · cases h
  · split at h
    · cases h
    · next hresolve =>
      rw [hresolve] at hfast hcount
      obtain ⟨hsame, us, hadds, hus⟩ := compileMissing_error h
      rw [hresolve]
      exact ⟨hsame.trans hcount, hexecute, us, hadds.of_fast hfast, hus⟩
    · next hresolve =>
      rw [hresolve] at hfast hcount
      cases h
      exact ⟨hcount, hexecute, [], adds_nil hfast, .inl rfl⟩

/-- A script whose own unit does not load is compiled in vain, after its expressions have been
cached. -/
theorem getExecutable_script_unloadable {e e' : Engine NoRepository} (h : e.Bare)
    {name : QualifiedName} {body : String} {c : ScriptCompilation} {fault : CompileError}
    (hnone : e.fast.get? name = none) (hcompile : (Compile.script name body).run e.types = .ok c)
    (hseed : e.seedAll c.expressions = (.ok (), e')) (hscript : c.script.load = .error fault) :
    e.getExecutable name (some (.script body)) = (.error (.compile fault), e') := by
  rw [h.getExecutable_missing hnone]
  simp only [compileMissing, compile, h.inquire, hcompile, hseed, install, hscript]
  rfl

/-- A name that denotes an expression of a script. -/
def misnamed : QualifiedName := (QualifiedName.script "Calc").expression "main"

/-- A script under the name of an expression is compiled, and its expression is cached, before the
script is found not to belong there. -/
theorem getExecutable_misnamed :
    ∃ cause e', standalone.getExecutable misnamed (some (.script Compile.assigning)) =
        (.error cause, e') ∧
      ∃ u, e'.fast.get? ((QualifiedName.script "Calc").expression "$1") = some u := by
  have hcompiles : ((Compile.script misnamed Compile.assigning).run
      standalone.types).toOption.isSome = true := by decide +kernel
  have hexpressions : (Script.parseScript Compile.assigning.toList).toOption.any (fun ss =>
      ((ScriptCheck.check misnamed ss).run standalone.types).toOption.any fun checked =>
        checked.expressions.any (·.name = (QualifiedName.script "Calc").expression "$1") &&
          checked.expressions.all fun x =>
            (Target.parseTarget x.sentence.targetCode.text.toList).toOption.all fun tree =>
              (UnitBody.expression tree).loads x.name) = true := by decide +kernel
  cases hcompile : (Compile.script misnamed Compile.assigning).run standalone.types with
  | error cause =>
    rw [hcompile] at hcompiles
    cases hcompiles
  | ok c =>
    obtain ⟨p⟩ := Compile.script_eq_ok hcompile
    simp only [p.parsed, p.check, Except.toOption, Option.any_some, Bool.and_eq_true,
      List.any_eq_true, List.all_eq_true, decide_eq_true_eq] at hexpressions
    obtain ⟨⟨x, hx, hname⟩, hloads⟩ := hexpressions
    have hload : ∀ u ∈ c.expressions, ∃ body, u.load = .ok body := by
      refine p.load_expressions fun y hy tree hparse => ?_
      have hy := hloads y hy
      rw [hparse] at hy
      exact hy
    obtain ⟨e₁, hseed, -, -, hheld⟩ := seedAll_spec c.expressions hload standalone
    obtain ⟨tree, -, hunit⟩ := p.unit_of_mem hx
    obtain ⟨u, hu⟩ := hheld _ hunit
    obtain ⟨fault, hscript⟩ := p.load_misnamed (by decide)
    exact ⟨.compile fault, e₁,
      getExecutable_script_unloadable bare_standalone rfl hcompile hseed hscript, u, hname ▸ hu⟩

theorem getExecutable_error_misnamed :
    ∃ cause e', standalone.getExecutable misnamed (some (.script Compile.assigning)) =
        (.error cause, e') ∧ e'.compilations = standalone.compilations ∧
      (∀ values, standalone.execute misnamed (some (.script Compile.assigning)) values =
        (.error cause, e')) ∧
      ∃ us, Adds us standalone e' ∧ (us = [] ∨ (standalone.resolveStored misnamed).2.LeftBehind
        misnamed (some (.script Compile.assigning)) cause us) := by
  obtain ⟨cause, e', hget, -⟩ := getExecutable_misnamed
  exact ⟨cause, e', hget, getExecutable_error hget⟩

/-- A failure can leave an expression behind under a name that was free. -/
theorem getExecutable_leaves_expression :
    ∃ cause e' u, standalone.getExecutable misnamed (some (.script Compile.assigning)) =
        (.error cause, e') ∧
      standalone.fast.get? ((QualifiedName.script "Calc").expression "$1") = none ∧
      e'.fast.get? ((QualifiedName.script "Calc").expression "$1") = some u := by
  obtain ⟨cause, e', hget, u, hu⟩ := getExecutable_misnamed
  exact ⟨cause, e', u, hget, rfl, hu⟩

end Scriptorium.Engine

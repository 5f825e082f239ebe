import Scriptorium.Proofs.Catalog.Editing
import Scriptorium.Proofs.Engine.Failure
import Scriptorium.Proofs.Engine.UpToDate

/-!
# What an engine serves

Whatever is done with an engine and its catalog, and whenever the repository
comes and goes in between, the engine serves nothing but what is stored under
the names that are stored. There is one exception: a script that is compiled
under the name of an expression leaves its own expressions in the fast cache,
where they stand before stored ones of the same name.
-/

namespace Scriptorium.Catalog

open Engine (UpToDate)

section Storing

variable {before after : Contents} {us : List CompiledUnit}

/-- Units are deleted together with the expressions they own. -/
theorem owned_filter (h : Owned before) (package : Package) :
    Owned (before.filterKeys fun name => !package.covers name) := by
  intro name hname
  unfold Dictionary.contains at hname ⊢
  have hcovers : package.covers name.owner = package.covers name := rfl
  rw [Dictionary.get?_filterKeys] at hname ⊢
  rw [hcovers]
  split at hname
  · next hkept =>
    rw [if_pos hkept]
    exact h name hname
  · cases hname

/-- Units are stored together with the units to which they belong. -/
theorem owned_saved (h : Owned before)
    (hus : ∀ u ∈ us, ∃ v ∈ us, v.name = u.name.owner) (k : Saved us before after) :
    Owned after := by
  have hheld : ∀ v ∈ us, after.contains v.name = true := by
    intro v hv
    rw [Dictionary.contains, k.held v hv]
    rfl
  intro name hname
  by_cases hunit : ∃ u ∈ us, u.name = name
  · obtain ⟨u, hu, rfl⟩ := hunit
    obtain ⟨v, hv, howner⟩ := hus u hu
    rw [← howner]
    exact hheld v hv
  · have hothers := k.others name fun u hu heq => hunit ⟨u, hu, heq⟩
    rw [Dictionary.contains, hothers] at hname
    have howner := h name hname
    by_cases hsaved : ∃ v ∈ us, v.name = name.owner
    · obtain ⟨v, hv, hsame⟩ := hsaved
      rw [← hsame]
      exact hheld v hv
    · rw [Dictionary.contains, k.others name.owner fun v hv heq => hsaved ⟨v, hv, heq⟩]
      exact howner

theorem owned_remaining (h : Owned before) (change : Change) (package : Package) :
    Owned (change.remaining package before) := by
  cases change with
  | create => exact h
  | update => exact owned_filter h package

/-- A script is compiled to a unit of its own and to expressions that belong to this unit. -/
theorem owners_script {types : Registry} {name : QualifiedName} {body : String}
    {c : ScriptCompilation} (hname : name.owner = name)
    (h : (Compile.script name body).run types = .ok c) :
    ∀ u ∈ c.units, ∃ v ∈ c.units, v.name = u.name.owner := by
  obtain ⟨p⟩ := Compile.script_eq_ok h
  have hscript : c.script.name = name := by
    rw [p.script]
    rfl
  intro u hu
  refine ⟨c.script, List.mem_cons_self, ?_⟩
  rcases List.mem_cons.mp hu with rfl | hu
  · rw [hscript, hname]
  · obtain ⟨x, hx, tree, -, rfl⟩ := p.mem_of_unit hu
    obtain ⟨-, -, hunits⟩ := ScriptCheck.check_matches p.check
    obtain ⟨⟨d, hd⟩, -⟩ := hunits x hx
    rw [hscript, CompiledUnit.ofBody, hd, QualifiedName.owner_expression, hname]

end Storing

variable {e e' : Engine MemoryRepository}

/-- Work leaves the caches up to date when what it stores is stored with its owners. -/
theorem upToDate_commit {α : Type} {work : Work MemoryRepository StoreFault α}
    (hwork : Orderly work) (h : e.UpToDate)
    (howned : ∀ r r' a, r.entries = e.cache.repository.entries → work r = (.ok a, r') →
      Owned r'.entries) : (commit work e).2.UpToDate := by
  cases hcommit : commit work e with
  | mk outcome e' =>
    cases outcome with
    | error cause =>
      rw [commit_error_eq hwork hcommit]
      exact h
    | ok a =>
      obtain ⟨r₁, r₂, r₃, hbefore, hdone, hafter, hidle, -, rfl⟩ := commit_ok hcommit
      refine Engine.upToDate_reload hidle ?_
      rw [hafter]
      exact howned r₁ r₂ a hbefore hdone

theorem upToDate_put {α : Type} {change : Change} {kind : EntryKind} {name : String}
    {compile : QualifiedName → Inquiry (Except CompileError (α × List CompiledUnit))}
    (h : e.UpToDate)
    (howners : ∀ types result us, (compile (kind.unitName name)).run types = .ok (result, us) →
      ∀ u ∈ us, ∃ v ∈ us, v.name = u.name.owner) : (put change kind name compile e).2.UpToDate := by
  unfold put checkedName
  by_cases hwell : (kind.unitName name).isWellFormed = true
  · obtain ⟨e₁, hinquire, hfilled⟩ := e.inquire_spec (compile (kind.unitName name))
    simp only [hwell, if_true, hinquire]
    have h₁ := h.filled hfilled
    cases hcompile : (compile (kind.unitName name)).run e.types with
    | error cause => exact h₁
    | ok compiled =>
      obtain ⟨result, us⟩ := compiled
      have hcommit : (commit (store change (kind.unitName name) us) e₁).2.UpToDate := by
        refine upToDate_commit (orderly_store change _ us) h₁ fun r r' _ hr hstore => ?_
        refine owned_saved ?_ (howners _ _ _ hcompile) (store_ok hstore)
        rw [hr]
        exact owned_remaining h₁.owned change _
      dsimp only
      split <;> next hc => rwa [hc] at hcommit
  · simp only [hwell]
    exact h

/-- An operation on the catalog leaves the caches up to date. -/
theorem upToDate_perform (h : e.UpToDate) (op : Operation) : (op.perform e).2.UpToDate := by
  cases op with
  | putScript change name body =>
    simp only [Operation.perform, Operation.report, putScript]
    refine upToDate_put h fun types inputs us hcompile => ?_
    obtain ⟨c, hscript, -, rfl⟩ := compileScript_eq_ok hcompile
    exact owners_script rfl hscript
  | putRecord change name spec =>
    simp only [Operation.perform, Operation.report, putRecord]
    refine upToDate_put h fun types result us hcompile => ?_
    obtain ⟨u, hrecord, rfl⟩ := compileRecord_eq_ok hcompile
    obtain ⟨defined, -, rfl⟩ := Compile.recordType_eq_ok hrecord
    intro u hu
    obtain rfl := List.mem_singleton.mp hu
    exact ⟨_, List.mem_cons_self, rfl⟩
  | deleteScript name =>
    simp only [Operation.perform, Operation.report]
    unfold deleteScript
    split
    · exact h
    · next unit hname =>
      have hcommit : (commit (delete unit.package) e).2.UpToDate := by
        refine upToDate_commit (orderly_delete unit.package) h fun r r' n hr hdelete => ?_
        rw [delete_ok hdelete, hr]
        exact owned_filter h.owned unit.package
      split <;> next hc => rwa [hc] at hcommit

/-- Something that is done with an engine and its catalog, or happens to their repository. -/
inductive Activity where
  | change (op : Operation)
  | source (kind : EntryKind) (name : String)
  | scriptInputs (name : String)
  | getExecutable (name : QualifiedName) (fallback : Option Fallback)
  | defineRecord (name : QualifiedName) (spec : String)
  | execute (name : QualifiedName) (body : Option String) (values : List Value)
  | evaluate (ref : ExprRef) (table : VariableTable)
  | reload
  | setAvailable (available : Bool)

namespace Activity

/-- The engine after the activity. -/
def carryOut (e : Engine MemoryRepository) : Activity → Engine MemoryRepository
  | .change op => (op.perform e).2
  | .source kind name => (Catalog.source kind name e).2
  | .scriptInputs name => (Catalog.scriptInputs name e).2
  | .getExecutable name fallback => (e.getExecutable name fallback).2
  | .defineRecord name spec => (e.defineRecord name spec).2
  | .execute name body values => (e.execute name (body.map .script) values).2
  | .evaluate ref table => (e.evaluate ref table).2
  | .reload => e.reload
  | .setAvailable available =>
    { e with cache := { e.cache with repository := e.cache.repository.setAvailable available } }

/-- No script is compiled under the name of an expression. -/
def Fits : Activity → Prop
  | .getExecutable name fallback => ∀ f ∈ fallback, f.Fits name
  | .execute name body _ => body.isSome = true → name.kind ≠ .expression
  | _ => True

/-- An engine over a repository without contents, after these activities. -/
def outcome (activities : List Activity) : Engine MemoryRepository :=
  activities.foldl carryOut (.ofRepository .empty 0)

end Activity

/-- Asking for a source text changes nothing. -/
theorem snd_source (kind : EntryKind) (name : String) (e : Engine MemoryRepository) :
    (source kind name e).2 = e := by
  have hcall : (CodeRepository.call (.source (kind.unitName name)) e.cache.repository).2 =
      e.cache.repository := by
    change (MemoryRepository.call Thread.main (.source _) e.cache.repository).2 = _
    unfold MemoryRepository.call
    split <;> rfl
  unfold source
  dsimp only
  rw [hcall]

/-- An activity leaves the caches up to date. -/
theorem upToDate_activity (h : e.UpToDate) {a : Activity} (hfits : a.Fits) :
    (a.carryOut e).UpToDate := by
  cases a with
  | change op => exact upToDate_perform h op
  | source kind name =>
    simp only [Activity.carryOut, snd_source]
    exact h
  | scriptInputs name =>
    simp only [Activity.carryOut, snd_scriptInputs]
    exact h.getExecutable nofun
  | getExecutable name fallback => exact h.getExecutable hfits
  | defineRecord name spec =>
    refine h.getExecutable fun f hf => ?_
    cases hf
    trivial
  | execute name body values =>
    refine h.execute (fun f hf => ?_) values
    obtain ⟨text, rfl, rfl⟩ := Option.map_eq_some_iff.mp hf
    exact hfits rfl
  | evaluate ref table => exact h.evaluate ref table
  | reload => exact Engine.upToDate_reload h.idle h.owned
  | setAvailable available => exact ⟨h.idle, h.owned, h.apart, h.current⟩

theorem upToDate_activities {activities : List Activity} (hfits : ∀ a ∈ activities, a.Fits)
    (h : e.UpToDate) : (activities.foldl Activity.carryOut e).UpToDate := by
  induction activities generalizing e with
  | nil => exact h
  | cons a rest ih =>
    exact ih (fun b hb => hfits b (List.mem_cons_of_mem _ hb))
      (upToDate_activity h (hfits a List.mem_cons_self))

/-- Nothing in the fast cache is stored, the current generation holds units as they are stored, and
no stored unit is given out as anything else. -/
structure ServesStored (e : Engine MemoryRepository) : Prop where
  apart : ∀ name u, e.fast.get? name = some u → e.cache.repository.entries.get? name = none
  current : ∀ name u, e.cache.current.cached? name = some u →
    ∃ stored, e.cache.repository.entries.get? name = some stored ∧
      Payload.load name stored.payload = .ok u.body
  given : ∀ name stored fallback u, e.cache.repository.entries.get? name = some stored →
    (e.getExecutable name fallback).1 = .ok u →
      u.name = name ∧ Payload.load name stored.payload = .ok u.body

/-- Whatever has been done, the engine serves what is stored. -/
theorem serves_stored {activities : List Activity} (hfits : ∀ a ∈ activities, a.Fits) :
    ServesStored (Activity.outcome activities) := by
  have hstart : (Engine.ofRepository MemoryRepository.empty 0).UpToDate :=
    ⟨rfl, nofun, nofun, nofun⟩
  have h : (Activity.outcome activities).UpToDate := upToDate_activities hfits hstart
  refine ⟨fun name u hu => ?_, fun name u hu => ?_,
    fun name stored fallback u hstored hget => h.getExecutable_stored hstored hget⟩
  · have hnone := h.apart name u hu
    unfold Dictionary.contains at hnone
    exact Option.not_isSome_iff_eq_none.mp (Bool.not_eq_true _ ▸ hnone)
  · obtain ⟨-, hbody⟩ := h.current name u hu
    obtain ⟨stored, hstored, -⟩ := Option.bind_eq_some_iff.mp hbody
    exact ⟨stored, hstored, load_of_storedBody? hstored hbody⟩

/-- A script is stored, the engine is reloaded while the repository is away, and the script is run
from another text in the meantime and when the repository is back. -/
def interlude : List Activity :=
  [.change (.putScript .create "Calc" Compile.assigning), .setAvailable false, .reload,
    .execute (.script "Calc") (some reassigning) [], .setAvailable true,
    .execute (.script "Calc") (some reassigning) []]

theorem serves_stored_interlude :
    (∀ a ∈ interlude, a.Fits) ∧ ServesStored (Activity.outcome interlude) := by
  have hfits : ∀ a ∈ interlude, a.Fits := by
    simp [interlude, Activity.Fits, QualifiedName.kind, QualifiedName.script]
  exact ⟨hfits, serves_stored hfits⟩

/-- A script whose own unit does not load leaves its expressions in the fast cache. -/
theorem compile_unloadable {σ : Type} [CodeRepository σ] [SteadyRepository σ] {e : Engine σ}
    {name : QualifiedName} {body : String} {c : ScriptCompilation} {fault : CompileError}
    (hcompile : (Compile.script name body).run e.types = .ok c)
    (hexpressions : ∀ u ∈ c.expressions, ∃ loaded, u.load = .ok loaded)
    (hscript : c.script.load = .error fault) :
    (e.compile name (.script body)).2.cache.repository = e.cache.repository ∧
      (∀ u ∈ c.expressions, ∃ r, (e.compile name (.script body)).2.fast.get? u.name = some r) ∧
      ∀ other r, (e.compile name (.script body)).2.fast.get? other = some r →
        e.fast.get? other = some r ∨ ∃ u ∈ c.expressions, u.name = other ∧ u.load = .ok r.body := by
  obtain ⟨e₁, hinquire, hfilled⟩ := e.inquire_spec (Compile.script name body)
  obtain ⟨e₂, hseed, hgrown, hnew, hheld⟩ := Engine.seedAll_spec c.expressions hexpressions e₁
  rw [hfilled.fast] at hnew
  simp only [Engine.compile, hinquire, hcompile, hseed, Engine.install, hscript]
  exact ⟨hgrown.repository.trans hfilled.cache.repository, hheld, hnew⟩

/-- A script is stored, and another one is compiled under the name of an expression of it. -/
def trespass : List Activity :=
  [.change (.putScript .create "Calc" Compile.assigning),
    .getExecutable Engine.misnamed (some (.script reassigning))]

/-- What compiling the source of a missing unit leaves behind. -/
theorem snd_compileMissing (e : Engine MemoryRepository) (name : QualifiedName)
    (fallback : Fallback) :
    (e.compileMissing name (some fallback)).2 = (e.compile name fallback).2 := rfl

/-- A unit is asked for after the catalog has been changed. -/
theorem outcome_change_getExecutable (op : Operation) (name : QualifiedName)
    (fallback : Option Fallback) :
    Activity.outcome [.change op, .getExecutable name fallback] =
      ((op.perform (.ofRepository .empty 0)).2.getExecutable name fallback).2 := rfl

/-- The script compiled last has left its only expression in the fast cache. -/
theorem fast_trespass : ∃ r tree,
    (Activity.outcome trespass).fast.get? ((QualifiedName.script "Calc").expression "$1") = some r ∧
      r.body = .expression tree ∧ Evaluate.expr .empty tree = .ok (.integer 2) ∧
      (Activity.outcome trespass).cache.repository = calculating.cache.repository := by
  have hcompiles : ((Compile.script Engine.misnamed reassigning).run
      (storedTypes ∅)).toOption.isSome = true := by decide +kernel
  have hvalue : (Compile.expressions? (storedTypes ∅) Engine.misnamed reassigning).bind
      soleInteger? = some ((QualifiedName.script "Calc").expression "$1", 2) := by decide +kernel
  have hloads : ((Compile.expressions? (storedTypes ∅) Engine.misnamed reassigning).getD []).all
      (fun x => (Target.parseTarget x.sentence.targetCode.text.toList).toOption.all fun tree =>
        (UnitBody.expression tree).loads x.name) = true := by decide +kernel
  have hnone : (calculating.fast.get? Engine.misnamed).isNone = true := by decide +kernel
  have hfree : (calculating.fast.get? ((QualifiedName.script "Calc").expression "$1")).isNone =
      true := by decide +kernel
  have hstored : (calculating.cache.repository.entries.get? Engine.misnamed).isNone = true := by
    decide +kernel
  rw [Option.isNone_iff_eq_none] at hnone hfree hstored
  have hmissing : calculating.found Engine.misnamed = .error (.notFound Engine.misnamed) := by
    rw [reached_calculating.coherent.found_eq hnone,
      GenerationCache.read_eq reached_calculating.coherent.available, hstored]
    rfl
  obtain ⟨e', hget, hfilled, -⟩ :=
    Engine.getExecutable_missing hmissing (some (.script reassigning))
  have hperform : calculating =
      ((Operation.putScript .create "Calc" Compile.assigning).perform
        (.ofRepository .empty 0)).2 := rfl
  have houtcome : Activity.outcome trespass =
      (e'.compile Engine.misnamed (.script reassigning)).2 := by
    rw [trespass, outcome_change_getExecutable, ← hperform, hget, snd_compileMissing]
  have htypes : e'.types = storedTypes ∅ := hfilled.types.trans types_calculating.1
  rw [← htypes] at hcompiles hvalue hloads
  cases hcompile : (Compile.script Engine.misnamed reassigning).run e'.types with
  | error cause =>
    rw [hcompile] at hcompiles
    cases hcompiles
  | ok c =>
    obtain ⟨p⟩ := Compile.script_eq_ok hcompile
    rw [Compile.expressions?_eq p] at hvalue hloads
    obtain ⟨x, hsole, hname, tree, hparse, hexpr⟩ := soleInteger?_eq_some hvalue
    have hexpressions := p.load_expressions fun y hy tree hparse => by
      have hy := List.all_eq_true.mp hloads y hy
      rw [hparse] at hy
      exact hy
    obtain ⟨fault, hscript⟩ := p.load_misnamed (by decide)
    obtain ⟨hrepository, hheld, hnew⟩ := compile_unloadable hcompile hexpressions hscript
    rw [← houtcome] at hrepository hheld hnew
    obtain ⟨_, -, hunit⟩ := p.unit_of_mem (hsole ▸ List.mem_cons_self : x ∈ p.checked.expressions)
    obtain ⟨r, hr⟩ := hheld _ hunit
    rw [CompiledUnit.ofBody, hname] at hr
    refine ⟨r, tree.reread, hr, ?_, hexpr, hrepository.trans hfilled.cache.repository⟩
    -- The name was free before, so the unit is that of the one expression of the script.
    rcases hnew _ r hr with hr | ⟨u, hu, -, hload⟩
    · rw [hfilled.fast, hfree] at hr
      cases hr
    · obtain ⟨y, hy, tree', hparse', rfl⟩ := p.mem_of_unit hu
      rw [hsole, List.mem_singleton] at hy
      subst hy
      obtain rfl : tree = tree' := Except.ok.inj (hparse.symm.trans hparse')
      have hreadable : (UnitBody.expression tree).Readable := Target.parseTarget_primitive hparse
      exact CompiledUnit.load_ofBody hreadable hload

/-- A stored expression can be shadowed by one that was left in the fast cache under its name, and
is then no longer evaluated to its value. -/
theorem shadows_stored : ¬ ServesStored (Activity.outcome trespass) ∧
    (Activity.outcome trespass).cache.repository = calculating.cache.repository ∧
    (calculating.evaluate ⟨(QualifiedName.script "Calc").expression "$1", "1"⟩ .empty).1 =
      .ok (.integer 1) ∧
    ((Activity.outcome trespass).evaluate ⟨(QualifiedName.script "Calc").expression "$1", "1"⟩
      .empty).1 = .ok (.integer 2) := by
  have hvalue : (Compile.expressions? (storedTypes ∅) (.script "Calc") Compile.assigning).bind
      soleInteger? = some ((QualifiedName.script "Calc").expression "$1", 1) := by decide +kernel
  have hstored : (calculating.cache.repository.entries.get?
      ((QualifiedName.script "Calc").expression "$1")).isSome = true := by decide +kernel
  obtain ⟨htypes, c, hintact⟩ := types_calculating
  obtain ⟨r, tree, hfast, hbody, hexpr, hrepository⟩ := fast_trespass
  refine ⟨fun h => ?_, hrepository, evaluate_of_soleInteger? hintact (htypes ▸ hvalue) "1", ?_⟩
  · rw [← hrepository, h.apart _ r hfast] at hstored
    cases hstored
  · have hfound : (Activity.outcome trespass).found
        ((QualifiedName.script "Calc").expression "$1") = .ok (r.name, .expression tree) := by
      rw [Engine.found_of_fast hfast, ReadyUnit.content, hbody]
    exact evaluate_of_found hfound hexpr "1"

end Scriptorium.Catalog

import Scriptorium.Proofs.Catalog.Storing
import Scriptorium.Proofs.Engine.Coherent

/-!
# Histories of a catalog

An engine is used to change the catalog, to run scripts and to ask for what is
stored, in any order. As long as its repository stays available and no record
type is defined without being stored, its caches agree with the repository.
-/

namespace Scriptorium.Catalog

open Transaction (Keeps)

/-- Work that leaves a transaction open and a repository as available as it was. -/
structure Orderly {α : Type} (work : Work MemoryRepository StoreFault α) : Prop where
  stays : ∀ before, Keeps (MemoryBacked.InTransaction before) work
  available : ∀ available, Keeps (fun r : MemoryRepository => r.available = available) work

/-- No request makes a repository available or unavailable. -/
theorem call_available {α : Type} {available : Bool} (q : Request α) (r : MemoryRepository)
    (h : r.available = available) : (CodeRepository.call q r).2.available = available :=
  (MemoryRepository.call_available Thread.main q r).trans h

theorem orderly_delete (package : Package) : Orderly (delete package) where
  stays _ := keeps_delete MemoryBacked.inTransaction_deleteUnder package
  available _ := keeps_delete (fun package => call_available (.deleteUnder package)) package

theorem orderly_store (change : Change) (name : QualifiedName) (us : List CompiledUnit) :
    Orderly (store change name us) where
  stays _ := keeps_store MemoryBacked.inTransaction_save MemoryBacked.inTransaction_deleteUnder
    change name us
  available _ := keeps_store (fun name payload source => call_available (.save name payload source))
    (fun package => call_available (.deleteUnder package)) change name us

variable {e e' : Engine MemoryRepository}

/-- A transaction leaves the repository as available as it was. -/
theorem available_run {α : Type} {work : Work MemoryRepository StoreFault α} (hwork : Orderly work)
    (r : MemoryRepository) :
    (Transaction.run .repository work r).2.available = r.available :=
  Transaction.keeps_run (P := fun s : MemoryRepository => s.available = r.available)
    (fun q s hs => call_available q s hs) .repository (hwork.available r.available) r rfl

/-- Work that fails leaves the engine as it was. -/
theorem commit_error_eq {α : Type} {work : Work MemoryRepository StoreFault α}
    (hwork : Orderly work) {cause : StoreFault} (h : commit work e = (.error cause, e')) :
    e' = e := by
  have havailable := available_run hwork e.cache.repository
  unfold commit at h
  cases hrun : Transaction.run .repository work e.cache.repository with
  | mk outcome r =>
    rw [hrun] at h havailable
    cases outcome with
    | ok a => cases h
    | error cause' =>
      cases h
      have hsame : MemoryRepository.SameState e.cache.repository r :=
        MemoryBacked.run_error hwork.stays hrun
      have hrepository : r = e.cache.repository := hsame.eq_of_available havailable
      rw [hrepository]

theorem coherent_commit {α : Type} {work : Work MemoryRepository StoreFault α}
    (hwork : Orderly work) (h : e.Coherent) : (commit work e).2.Coherent := by
  cases hcommit : commit work e with
  | mk outcome e' =>
    cases outcome with
    | error cause =>
      rw [commit_error_eq hwork hcommit]
      exact h
    | ok a =>
      obtain ⟨r₁, r₂, r₃, -, -, -, hidle, hrun, rfl⟩ := commit_ok hcommit
      refine Engine.coherent_reload ?_ hidle
      have havailable := available_run hwork e.cache.repository
      rw [← hrun, h.available] at havailable
      exact havailable

theorem coherent_put {α : Type} {change : Change} {kind : EntryKind} {name : String}
    {compile : QualifiedName → Inquiry (Except CompileError (α × List CompiledUnit))}
    (h : e.Coherent) : (put change kind name compile e).2.Coherent := by
  unfold put
  split
  · exact h
  · next unit hname =>
    obtain ⟨e₁, hinquire, hfilled⟩ := e.inquire_spec (compile unit)
    rw [hinquire]
    have h₁ := h.filled hfilled
    split
    · next heq =>
      obtain ⟨-, rfl⟩ := Prod.mk.inj heq
      exact h₁
    · next result us e₂ heq =>
      obtain ⟨-, rfl⟩ := Prod.mk.inj heq
      have hcommit := coherent_commit (orderly_store change unit us) h₁
      split <;> next hc => rwa [hc] at hcommit

theorem coherent_deleteScript (h : e.Coherent) (name : String) :
    (deleteScript name e).2.Coherent := by
  unfold deleteScript
  split
  · exact h
  · next unit hname =>
    have hcommit := coherent_commit (orderly_delete unit.package) h
    split <;> next hc => rwa [hc] at hcommit

/-- An operation on the catalog leaves the caches in agreement with the repository. -/
theorem coherent_perform (h : e.Coherent) (op : Operation) : (op.perform e).2.Coherent := by
  cases op with
  | putScript change name body =>
    simp only [Operation.perform, Operation.report, putScript]
    exact coherent_put h
  | putRecord change name spec =>
    simp only [Operation.perform, Operation.report, putRecord]
    exact coherent_put h
  | deleteScript name =>
    simp only [Operation.perform, Operation.report]
    exact coherent_deleteScript h name

/-- The engines that come of a repository without contents by operations on the catalog, runs,
evaluations and inquiries. -/
inductive Reached : Engine MemoryRepository → Prop
  | start (id : Nat) : Reached (.ofRepository .empty id)
  | perform {e : Engine MemoryRepository} (h : Reached e) (op : Operation) :
    Reached (op.perform e).2
  | execute {e : Engine MemoryRepository} (h : Reached e) (name : QualifiedName)
    (body : Option String) (values : List Value) :
    Reached (e.execute name (body.map .script) values).2
  | getExecutable {e : Engine MemoryRepository} (h : Reached e) (name : QualifiedName)
    {fallback : Option Fallback} (hcode : ∀ f ∈ fallback, f.IsCode) :
    Reached (e.getExecutable name fallback).2
  | evaluate {e : Engine MemoryRepository} (h : Reached e) (ref : ExprRef) (t : VariableTable) :
    Reached (e.evaluate ref t).2
  | source {e : Engine MemoryRepository} (h : Reached e) (kind : EntryKind) (name : String) :
    Reached (source kind name e).2
  | scriptInputs {e : Engine MemoryRepository} (h : Reached e) (name : String) :
    Reached (scriptInputs name e).2
  | reload {e : Engine MemoryRepository} (h : Reached e) : Reached e.reload
  /-- Another engine is put over the repository. -/
  | reopen {e : Engine MemoryRepository} (h : Reached e) (id : Nat) :
    Reached (.ofRepository e.cache.repository id)
  /-- The engine is reloaded after the repository has been changed through another one. -/
  | follow {e other : Engine MemoryRepository} (h : Reached e) (k : Reached other) :
    Reached { e with cache := { e.cache with repository := other.cache.repository } }.reload

theorem source_eq (h : e.Coherent) (kind : EntryKind) (name : String) :
    source kind name e =
      (.ok ((e.cache.repository.entries.get? (kind.unitName name)).bind (·.source)), e) := by
  have hcall : CodeRepository.call (.source (kind.unitName name)) e.cache.repository =
      (.ok ((e.cache.repository.entries.get? (kind.unitName name)).bind (·.source)),
        e.cache.repository) := by
    change MemoryRepository.call Thread.main (.source _) e.cache.repository = _
    simp only [MemoryRepository.call, h.available]
    rfl
  unfold source
  rw [hcall]
  rfl

theorem snd_scriptInputs (name : String) (e : Engine MemoryRepository) :
    (scriptInputs name e).2 = (e.getExecutable (.script name) none).2 := by
  unfold scriptInputs
  have hname : EntryKind.script.unitName name = .script name := rfl
  rw [hname]
  cases e.getExecutable (.script name) none with
  | mk outcome e' =>
    cases outcome with
    | error cause => rfl
    | ok u =>
      dsimp only
      cases u.body.script? <;> rfl

/-- Whatever the history, the caches agree with the repository. -/
theorem Reached.coherent (h : Reached e) : e.Coherent := by
  induction h with
  | start id => exact ⟨rfl, rfl, nofun, nofun⟩
  | perform _ op ih => exact coherent_perform ih op
  | execute _ name body values ih =>
    refine ih.execute (fun f hf => ?_) values
    obtain ⟨text, -, rfl⟩ := Option.map_eq_some_iff.mp hf
    trivial
  | getExecutable _ name hcode ih => exact ih.getExecutable hcode
  | evaluate _ ref t ih => exact ih.evaluate ref t
  | source _ kind name ih =>
    rw [source_eq ih]
    exact ih
  | scriptInputs _ name ih =>
    rw [snd_scriptInputs]
    exact ih.getExecutable nofun
  | reload _ ih => exact Engine.coherent_reload ih.available ih.idle
  | reopen _ id ih => exact ⟨ih.available, ih.idle, nofun, nofun⟩
  | follow _ _ _ ih => exact Engine.coherent_reload ih.available ih.idle

end Scriptorium.Catalog

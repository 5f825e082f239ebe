import Scriptorium.Proofs.Catalog.Operation
import Scriptorium.Proofs.Unit.Loading

/-!
# Operations on the catalog are atomic

However often the repository comes and goes in the middle of an operation, an
operation that reports an error has left the repository as it was and has
published nothing.
-/

namespace Scriptorium

open MemoryBacked (inner InTransaction)

variable {σ : Type} [CodeRepository σ] [MemoryBacked σ]

namespace GenerationCache

/-- Nothing is stored, deleted or published from the one state of a cache to the other. -/
structure Unchanged (c c' : GenerationCache σ) : Prop where
  state : (inner c.repository).SameState (inner c'.repository)
  current : c'.current.id = c.current.id
  past : c'.past = c.past

variable {c c' : GenerationCache σ}

theorem Unchanged.refl (c : GenerationCache σ) : Unchanged c c := ⟨.refl _, rfl, rfl⟩

theorem Unchanged.trans {c'' : GenerationCache σ} (h : Unchanged c c') (k : Unchanged c' c'') :
    Unchanged c c'' :=
  ⟨h.state.trans k.state, k.current.trans h.current, k.past.trans h.past⟩

theorem unchanged_payload (c : GenerationCache σ) (name : QualifiedName) :
    Unchanged c (c.payload name).2 := by
  have hload := MemoryBacked.sameState_load name c.repository
  unfold payload
  split <;> next h => rw [h] at hload; exact ⟨hload, rfl, rfl⟩

theorem unchanged_load (c : GenerationCache σ) (name : QualifiedName) :
    Unchanged c (c.load name).2 := by
  have hpayload := unchanged_payload c name
  unfold load
  split
  · next h => rwa [h] at hpayload
  · next h =>
    rw [h] at hpayload
    split
    · exact hpayload
    · exact hpayload.trans ⟨.refl _, rfl, rfl⟩

theorem unchanged_resolveCurrent (c : GenerationCache σ) (name : QualifiedName) :
    Unchanged c (c.resolveCurrent name).2 := by
  unfold resolveCurrent
  split
  · exact .refl c
  · exact unchanged_load c name

end GenerationCache

namespace Engine

theorem unchanged_recordType (name : QualifiedName) (e : Engine σ) :
    e.cache.Unchanged (e.recordType name).2.cache := by
  unfold recordType
  split
  · exact .refl _
  · have hresolve := e.cache.unchanged_resolveCurrent name
    unfold GenerationCache.recordType
    dsimp only
    split <;> next h => rwa [h] at hresolve

theorem unchanged_inquire {α : Type} (e : Engine σ) (x : Inquiry α) :
    e.cache.Unchanged (e.inquire x).2.cache := by
  have hlookup (name : QualifiedName) (s : Engine σ) (hs : e.cache.Unchanged s.cache) :
      e.cache.Unchanged (s.recordType name).2.cache := hs.trans (unchanged_recordType name s)
  exact x.runWith_preserves hlookup (.refl e.cache)

end Engine

namespace Catalog

variable {e e' : Engine σ} {cause : CatalogError}

theorem commit_error {α : Type} {work : Work σ StoreFault α}
    (hwork : ∀ before, Transaction.Keeps (InTransaction before) work) {cause : StoreFault}
    (h : commit work e = (.error cause, e')) :
    e.cache.Unchanged e'.cache := by
  unfold commit at h
  cases hrun : Transaction.run .repository work e.cache.repository with
  | mk outcome repository =>
    rw [hrun] at h
    cases outcome with
    | ok a => cases h
    | error cause =>
      cases h
      exact ⟨MemoryBacked.run_error hwork hrun, rfl, rfl⟩

theorem put_error {α : Type} {change : Change} {kind : EntryKind} {name : String}
    {compile : QualifiedName → Inquiry (Except CompileError (α × List CompiledUnit))}
    (h : put change kind name compile e = (.error cause, e')) : e.cache.Unchanged e'.cache := by
  unfold put at h
  split at h
  · cases h
    exact .refl _
  · next unit hname =>
    have hinquire := e.unchanged_inquire (compile unit)
    split at h
    · next hcompile =>
      cases h
      rwa [hcompile] at hinquire
    · next result us e₁ hcompile =>
      rw [hcompile] at hinquire
      split at h
      · next hcommit =>
        cases h
        refine hinquire.trans (commit_error (fun before => ?_) hcommit)
        exact keeps_store MemoryBacked.inTransaction_save MemoryBacked.inTransaction_deleteUnder
          change unit us
      · cases h

theorem deleteScript_error {name : String} (h : deleteScript name e = (.error cause, e')) :
    e.cache.Unchanged e'.cache := by
  unfold deleteScript at h
  split at h
  · cases h
    exact .refl _
  · next unit hname =>
    split at h
    · next hcommit =>
      cases h
      exact commit_error
        (fun before => keeps_delete MemoryBacked.inTransaction_deleteUnder unit.package) hcommit
    · cases h

theorem Operation.unchanged_perform_error {op : Operation} (h : op.perform e = (.error cause, e')) :
    e.cache.Unchanged e'.cache := by
  cases op with
  | putScript change name body => exact put_error (report_error h)
  | putRecord change name spec => exact put_error (report_error h)
  | deleteScript name => exact deleteScript_error (report_error h)

/-- An operation that reports an error changes nothing, whenever the repository was or was not
available. -/
theorem Operation.perform_error {op : Operation} {e e' : Engine IntermittentRepository}
    (h : op.perform e = (.error cause, e')) : e.cache.Unchanged e'.cache :=
  unchanged_perform_error h

/-- An engine over a repository that becomes unavailable when a second unit is saved. -/
def interrupted : Engine IntermittentRepository := .ofRepository ⟨.empty, [true, true, false]⟩ 0

theorem Operation.perform_error_interrupted :
    ∃ cause e', (Operation.putScript .create "Calc" Compile.assigning).perform interrupted =
        (.error cause, e') ∧ interrupted.cache.Unchanged e'.cache := by
  have hfails : ((Operation.putScript .create "Calc" Compile.assigning).perform
      interrupted).1.toOption.isNone = true := by decide +kernel
  cases hperform : (Operation.putScript .create "Calc" Compile.assigning).perform interrupted with
  | mk outcome e' =>
    rw [hperform] at hfails
    cases outcome with
    | ok => cases hfails
    | error cause => exact ⟨cause, e', rfl, perform_error hperform⟩

end Catalog

end Scriptorium

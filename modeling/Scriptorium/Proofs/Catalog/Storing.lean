import Scriptorium.Proofs.Catalog.Operation
import Scriptorium.Proofs.Engine.Reading
import Scriptorium.Proofs.Unit.Compilation
import Scriptorium.Proofs.Unit.Records

/-!
# What operations on the catalog store

An operation that succeeds has compiled its source against the record types
that the engine finds, and has stored the units that came of it, besides what
the package of its entry does not cover.
-/

namespace Scriptorium

/-- The contents to which the units of an entry are added: all of them, or those outside the
entry's package when it is updated. -/
def Change.remaining (change : Change) (package : Package) (before : Contents) : Contents :=
  match change with
  | .create => before
  | .update => before.filterKeys fun name => !package.covers name

namespace Catalog

/-- The contents are those of before with the units added, none of which was there. -/
structure Saved (us : List CompiledUnit) (before after : Contents) : Prop where
  fresh : ∀ u ∈ us, before.get? u.name = none
  held : ∀ u ∈ us, after.get? u.name = some ⟨u.payload, u.source⟩
  others : ∀ name, (∀ u ∈ us, u.name ≠ name) → after.get? name = before.get? name

theorem Saved.cons {u : CompiledUnit} {us : List CompiledUnit} {before after : Contents}
    (hfresh : before.get? u.name = none)
    (h : Saved us (before.insert u.name ⟨u.payload, u.source⟩) after) :
    Saved (u :: us) before after := by
  have hne : ∀ v ∈ us, v.name ≠ u.name := by
    intro v hv hname
    have hfree := h.fresh v hv
    rw [hname, Dictionary.get?_insert_self] at hfree
    cases hfree
  refine ⟨fun v hv => ?_, fun v hv => ?_, fun name hname => ?_⟩
  · rcases List.mem_cons.mp hv with rfl | hv
    · exact hfresh
    · rw [← h.fresh v hv, Dictionary.get?_insert_of_ne _ (hne v hv)]
  · rcases List.mem_cons.mp hv with rfl | hv
    · rw [h.others v.name hne, Dictionary.get?_insert_self]
    · exact h.held v hv
  · have hhead := hname u List.mem_cons_self
    rw [h.others name fun v hv => hname v (List.mem_cons_of_mem _ hv),
      Dictionary.get?_insert_of_ne _ hhead.symm]

section Storing

variable {r r' : MemoryRepository}

theorem saveAll_ok {us : List CompiledUnit} (h : saveAll us r = (.ok (), r')) :
    Saved us r.entries r'.entries := by
  induction us generalizing r with
  | nil =>
    cases h
    exact ⟨nofun, nofun, fun _ _ => rfl⟩
  | cons u us ih =>
    unfold saveAll at h
    split at h
    · cases h
    · next r₁ hcall =>
      obtain ⟨hfresh, hentries⟩ := MemoryRepository.save_ok hcall
      have hrest := ih h
      rw [hentries] at hrest
      exact .cons hfresh hrest

theorem delete_ok {package : Package} {n : Nat} (h : delete package r = (.ok n, r')) :
    r'.entries = r.entries.filterKeys fun name => !package.covers name := by
  unfold delete at h
  split at h
  · cases h
  · cases h
  · next hcall =>
    cases h
    exact MemoryRepository.deleteUnder_ok hcall

theorem store_ok {change : Change} {name : QualifiedName} {us : List CompiledUnit}
    (h : store change name us r = (.ok (), r')) :
    Saved us (change.remaining name.package r.entries) r'.entries := by
  cases change with
  | create => exact saveAll_ok h
  | update =>
    simp only [store] at h
    unfold replace at h
    split at h
    · cases h
    · next n r₁ hdelete =>
      have hsaved := saveAll_ok h
      rw [delete_ok hdelete] at hsaved
      exact hsaved

end Storing

variable {e e' : Engine MemoryRepository}

/-- Reloading leaves the repository as it is. -/
theorem repository_reload (e : Engine MemoryRepository) :
    e.reload.cache.repository = e.cache.repository := by
  obtain ⟨version, hfilled⟩ := e.cache.filled_reload
  exact hfilled.repository

/-- Work that is done and kept leads from the contents of before to the present ones. -/
theorem commit_ok {α : Type} {work : Work MemoryRepository StoreFault α} {a : α}
    (h : commit work e = (.ok a, e')) :
    ∃ r₁ r₂ r₃ : MemoryRepository, r₁.entries = e.cache.repository.entries ∧
      work r₁ = (.ok a, r₂) ∧ r₃.entries = r₂.entries ∧ r₃.transaction = none ∧
      r₃ = (Transaction.run .repository work e.cache.repository).2 ∧
      e' = { e with cache := { e.cache with repository := r₃ } }.reload := by
  unfold commit at h
  have hcourse := Transaction.run_course .repository work e.cache.repository
  cases hrun : Transaction.run .repository work e.cache.repository with
  | mk outcome r₃ =>
    rw [hrun] at h hcourse
    cases outcome with
    | error cause => cases h
    | ok =>
      cases h
      cases hcourse with
      | @kept _ r₁ r₂ _ hbegin hwork hcommit =>
        obtain ⟨-, hopened⟩ := MemoryRepository.begin_ok hbegin
        obtain ⟨hentries, hclosed⟩ := MemoryRepository.commit_ok hcommit
        exact ⟨r₁, r₂, r₃, by rw [hopened], hwork, hentries, hclosed, rfl, rfl⟩

/-- Work that is kept empties the fast cache. -/
theorem fast_commit {α : Type} {work : Work MemoryRepository StoreFault α} {a : α}
    (h : commit work e = (.ok a, e')) : e'.fast = ∅ := by
  obtain ⟨r₁, r₂, r₃, -, -, -, -, -, rfl⟩ := commit_ok h
  rfl

/-- Whether work is kept is decided in the repository. -/
theorem fst_commit {α : Type} (work : Work MemoryRepository StoreFault α)
    (e : Engine MemoryRepository) :
    (commit work e).1 = (Transaction.run .repository work e.cache.repository).1 := by
  unfold commit
  cases hrun : Transaction.run .repository work e.cache.repository with
  | mk outcome r => cases outcome <;> rfl

/-- An entry that is put is compiled and its units are stored. -/
theorem put_ok {α : Type} {change : Change} {kind : EntryKind} {name : String} {result : α}
    {compile : QualifiedName → Inquiry (Except CompileError (α × List CompiledUnit))}
    (h : put change kind name compile e = (.ok result, e')) :
    ∃ us e₁, (kind.unitName name).isWellFormed = true ∧
      (compile (kind.unitName name)).run e.types = .ok (result, us) ∧ e.Filled e₁ ∧
      commit (store change (kind.unitName name) us) e₁ = (.ok (), e') := by
  unfold put checkedName at h
  by_cases hwell : (kind.unitName name).isWellFormed = true
  · obtain ⟨e₁, hinquire, hfilled⟩ := e.inquire_spec (compile (kind.unitName name))
    simp only [hwell, if_true, hinquire] at h
    cases hcompile : (compile (kind.unitName name)).run e.types with
    | error cause =>
      rw [hcompile] at h
      cases h
    | ok compiled =>
      obtain ⟨result', us⟩ := compiled
      simp only [hcompile] at h
      split at h
      · cases h
      · next e₂ hcommit =>
        cases h
        exact ⟨us, e₁, hwell, rfl, hfilled, hcommit⟩
  · simp only [hwell] at h
    cases h

theorem fast_put {α : Type} {change : Change} {kind : EntryKind} {name : String} {result : α}
    {compile : QualifiedName → Inquiry (Except CompileError (α × List CompiledUnit))}
    (h : put change kind name compile e = (.ok result, e')) : e'.fast = ∅ := by
  obtain ⟨us, e₁, -, -, -, hcommit⟩ := put_ok h
  exact fast_commit hcommit

theorem put_saved {α : Type} {change : Change} {kind : EntryKind} {name : String} {result : α}
    {compile : QualifiedName → Inquiry (Except CompileError (α × List CompiledUnit))}
    (h : put change kind name compile e = (.ok result, e')) :
    ∃ us, (compile (kind.unitName name)).run e.types = .ok (result, us) ∧
      Saved us (change.remaining (kind.unitName name).package e.cache.repository.entries)
        e'.cache.repository.entries := by
  obtain ⟨us, e₁, -, hcompile, hfilled, hcommit⟩ := put_ok h
  obtain ⟨r₁, r₂, r₃, hbefore, hwork, hafter, -, -, rfl⟩ := commit_ok hcommit
  have hsaved := store_ok hwork
  rw [hbefore, hfilled.cache.repository] at hsaved
  refine ⟨us, hcompile, ?_⟩
  rw [repository_reload, hafter]
  exact hsaved

/-- What is reported of an entry that is put depends on the record types and on the repository. -/
theorem fst_put {α : Type} (change : Change) (kind : EntryKind) (name : String)
    (compile : QualifiedName → Inquiry (Except CompileError (α × List CompiledUnit)))
    (e : Engine MemoryRepository) :
    (put change kind name compile e).1 = (checkedName kind name).bind fun unit =>
      match (compile unit).run e.types with
      | .error cause => .error (.notStored change kind name (.compile cause))
      | .ok (result, us) =>
        ((Transaction.run .repository (store change unit us) e.cache.repository).1.map
          fun _ => result).mapError (storeError change kind name) := by
  unfold put
  cases hname : checkedName kind name with
  | error cause => rfl
  | ok unit =>
    obtain ⟨e₁, hinquire, hfilled⟩ := e.inquire_spec (compile unit)
    simp only [hinquire, Except.bind]
    rcases hcompile : (compile unit).run e.types with cause | ⟨result, us⟩
    · rfl
    · dsimp only
      rw [← hfilled.cache.repository, ← fst_commit]
      rcases hcommit : commit (store change unit us) e₁ with ⟨_ | _, e₂⟩ <;> rfl

/-- What is reported of a deletion depends on the repository. -/
theorem fst_deleteScript (name : String) (e : Engine MemoryRepository) :
    (deleteScript name e).1 = (checkedName .script name).bind fun unit =>
      (Transaction.run .repository (delete unit.package) e.cache.repository).1.mapError
        (deleteError .script name) := by
  unfold deleteScript
  cases hname : checkedName .script name with
  | error cause => rfl
  | ok unit =>
    simp only [Except.bind]
    rw [← fst_commit]
    rcases hcommit : commit (delete unit.package) e with ⟨_ | _, e₂⟩ <;> rfl

theorem deleteScript_ok {name : String} {n : Nat} (h : deleteScript name e = (.ok n, e')) :
    e'.fast = ∅ ∧ e'.cache.repository.entries = e.cache.repository.entries.filterKeys fun other =>
      !(QualifiedName.script name).package.covers other := by
  unfold deleteScript checkedName at h
  by_cases hwell : (EntryKind.script.unitName name).isWellFormed = true
  · simp only [hwell, if_true] at h
    split at h
    · cases h
    · next n' e₁ hcommit =>
      cases h
      refine ⟨fast_commit hcommit, ?_⟩
      obtain ⟨r₁, r₂, r₃, hbefore, hwork, hafter, -, -, rfl⟩ := commit_ok hcommit
      rw [repository_reload, hafter, delete_ok hwork, hbefore]
      rfl
  · simp only [hwell] at h
    cases h

/-- The units of a script. -/
theorem compileScript_eq_ok {types : Registry} {body : String} {unit : QualifiedName}
    {inputs : InputManifest} {us : List CompiledUnit}
    (h : (compileScript body unit).run types = .ok (inputs, us)) :
    ∃ c, (Compile.script unit body).run types = .ok c ∧ inputs = c.inputs ∧ us = c.units := by
  unfold compileScript at h
  rw [Inquiry.run_bind] at h
  cases hcompile : (Compile.script unit body).run types with
  | error cause =>
    rw [hcompile] at h
    cases h
  | ok c =>
    rw [hcompile] at h
    cases h
    exact ⟨c, rfl, rfl, rfl⟩

/-- The unit of a record type. -/
theorem compileRecord_eq_ok {types : Registry} {spec : String} {unit : QualifiedName}
    {us : List CompiledUnit} (h : (compileRecord spec unit).run types = .ok ((), us)) :
    ∃ u, (Compile.recordType unit spec).run types = .ok u ∧ us = [u] := by
  unfold compileRecord at h
  rw [Inquiry.run_bind] at h
  cases hcompile : (Compile.recordType unit spec).run types with
  | error cause =>
    rw [hcompile] at h
    cases h
  | ok u =>
    rw [hcompile] at h
    cases h
    exact ⟨u, rfl, rfl⟩

/-- The units of a script belong to its package. -/
theorem package_of_mem_units {types : Registry} {name : QualifiedName} {body : String}
    {c : ScriptCompilation} (h : (Compile.script name body).run types = .ok c) {u : CompiledUnit}
    (hu : u ∈ c.units) : u.name.package = name.package := by
  obtain ⟨p⟩ := Compile.script_eq_ok h
  rcases List.mem_cons.mp hu with rfl | hu
  · rw [p.script]
    rfl
  · obtain ⟨x, hx, tree, -, rfl⟩ := p.mem_of_unit hu
    obtain ⟨-, -, hunits⟩ := ScriptCheck.check_matches p.check
    obtain ⟨⟨d, hd⟩, -⟩ := hunits x hx
    simp only [CompiledUnit.ofBody, hd]
    rfl

end Catalog

end Scriptorium

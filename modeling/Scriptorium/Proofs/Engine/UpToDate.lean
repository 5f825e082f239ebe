import Scriptorium.Proofs.Engine.Coherent

/-!
# Engines that serve what is stored

Nothing that the fast cache holds is stored, and whatever the current generation
holds is as the repository has it, whether or not the repository can be reached
at the moment. An engine keeps this while it resolves units, compiles what is
missing, and runs scripts, as long as the owner of every stored unit is stored
too and no script is compiled under the name of an expression.
-/

namespace Scriptorium

/-- The unit to which an expression belongs. -/
def QualifiedName.owner (name : QualifiedName) : QualifiedName :=
  { name with discriminator := none }

@[simp] theorem QualifiedName.owner_expression (name : QualifiedName) (d : String) :
    (name.expression d).owner = name.owner := rfl

theorem QualifiedName.owner_of_kind {name : QualifiedName} (h : name.kind ≠ .expression) :
    name.owner = name := by
  obtain ⟨root, path, discriminator⟩ := name
  cases discriminator with
  | none => rfl
  | some d => exact absurd rfl h

/-- Expressions are stored together with the units they belong to. -/
def Owned (entries : Contents) : Prop :=
  ∀ name, entries.contains name = true → entries.contains name.owner = true

/-- The source is not that of a script under the name of an expression. -/
def Fallback.Fits (name : QualifiedName) : Fallback → Prop
  | .script _ => name.kind ≠ .expression
  | _ => True

theorem load_of_storedBody? {entries : Contents} {name : QualifiedName} {stored : StoredUnit}
    (hstored : entries.get? name = some stored) {body : UnitBody}
    (h : storedBody? entries name = some body) : Payload.load name stored.payload = .ok body := by
  unfold storedBody? at h
  rw [hstored, Option.bind_some] at h
  cases hload : Payload.load name stored.payload with
  | error fault =>
    rw [hload] at h
    cases h
  | ok loaded =>
    rw [hload] at h
    cases h
    rfl

namespace GenerationCache

variable {c : GenerationCache MemoryRepository} {name : QualifiedName}

theorem read_unavailable (h : c.repository.available = false) (name : QualifiedName) :
    c.read name = .error (.repository MemoryRepository.unavailable) := by
  have hcall : CodeRepository.call (.load name) c.repository =
      (.error MemoryRepository.unavailable, c.repository) := by
    change MemoryRepository.call Thread.main (.load name) c.repository = _
    simp only [MemoryRepository.call, h]
    rfl
  unfold read payload
  rw [hcall]

/-- What is read from the repository is stored there. -/
theorem stored_of_read {body : UnitBody} (h : c.read name = .ok body) :
    storedBody? c.repository.entries name = some body := by
  cases havailable : c.repository.available with
  | false =>
    rw [read_unavailable havailable] at h
    cases h
  | true =>
    rw [read_eq havailable] at h
    unfold storedBody?
    cases hget : c.repository.entries.get? name with
    | none =>
      rw [hget] at h
      cases h
    | some stored =>
      rw [hget] at h
      dsimp only at h
      rw [Option.bind_some]
      cases hload : Payload.load name stored.payload with
      | error fault =>
        rw [hload] at h
        cases h
      | ok loaded =>
        rw [hload] at h
        cases h
        rfl

/-- What is not found in the repository is not stored there. -/
theorem not_stored_of_read {other : QualifiedName} (h : c.read name = .error (.notFound other)) :
    c.repository.entries.contains name = false := by
  cases havailable : c.repository.available with
  | false =>
    rw [read_unavailable havailable] at h
    cases h
  | true =>
    rw [read_eq havailable] at h
    unfold Dictionary.contains
    cases hget : c.repository.entries.get? name with
    | none => rfl
    | some stored =>
      rw [hget] at h
      dsimp only at h
      cases hload : Payload.load name stored.payload <;> rw [hload] at h <;> cases h

end GenerationCache

namespace Engine

/-- What is not found at all is in neither cache, and is not read either. -/
theorem read_of_found_error {σ : Type} [CodeRepository σ] {e : Engine σ} {name : QualifiedName}
    {cause : ResolveError} (h : e.found name = .error cause) :
    e.fast.get? name = none ∧ e.cache.read name = .error cause := by
  unfold found GenerationCache.found at h
  cases hfast : e.fast.get? name with
  | some u =>
    rw [hfast] at h
    cases h
  | none =>
    rw [hfast] at h
    dsimp only at h
    refine ⟨rfl, ?_⟩
    cases hcached : e.cache.current.cached? name with
    | some u =>
      rw [hcached] at h
      cases h
    | none =>
      rw [hcached] at h
      dsimp only at h
      cases hread : e.cache.read name with
      | ok body =>
        rw [hread] at h
        cases h
      | error other =>
        rw [hread] at h
        cases h
        rfl

/-- The fast cache holds nothing that is stored, and the current generation nothing but what is,
as it is stored. The repository is not in a transaction. -/
structure UpToDate (e : Engine MemoryRepository) : Prop where
  idle : e.cache.repository.transaction = none
  owned : Owned e.cache.repository.entries
  apart : ∀ name u, e.fast.get? name = some u →
    e.cache.repository.entries.contains name = false
  current : ∀ name u, e.cache.current.cached? name = some u →
    u.name = name ∧ storedBody? e.cache.repository.entries name = some u.body

namespace UpToDate

variable {e e' : Engine MemoryRepository} {name : QualifiedName}

theorem filled (h : e.UpToDate) (k : Filled e e') : e'.UpToDate where
  idle := by rw [k.cache.repository, h.idle]
  owned := by
    rw [k.cache.repository]
    exact h.owned
  apart name u hu := by
    rw [k.fast] at hu
    rw [k.cache.repository]
    exact h.apart name u hu
  current name u hu := by
    rw [k.cache.repository]
    rcases k.cache.loaded name u hu with hu | ⟨hname, hread⟩
    · exact h.current name u hu
    · exact ⟨hname, GenerationCache.stored_of_read hread⟩

/-- A unit that is not stored may be cached. -/
theorem seed (h : e.UpToDate) (hname : e.cache.repository.entries.contains name = false)
    (body : UnitBody) (compilations : Nat) :
    UpToDate { (e.seed name body).2 with compilations } where
  idle := h.idle
  owned := h.owned
  apart other u hu := by
    rcases get?_seed hu with hu | ⟨rfl, -⟩
    · exact h.apart other u hu
    · exact hname
  current := h.current

/-- The expressions of a script are not stored where the script is not. -/
theorem not_stored_expression (h : e.UpToDate) (hkind : name.kind ≠ .expression)
    (hname : e.cache.repository.entries.contains name = false) (d : String) :
    e.cache.repository.entries.contains (name.expression d) = false := by
  cases hstored : e.cache.repository.entries.contains (name.expression d) with
  | false => rfl
  | true =>
    have howner := h.owned _ hstored
    rw [QualifiedName.owner_expression, QualifiedName.owner_of_kind hkind, hname] at howner
    cases howner

/-- A source may be compiled under a name that is not stored. -/
theorem compile (h : e.UpToDate) (hname : e.cache.repository.entries.contains name = false)
    {fallback : Fallback} (hfits : fallback.Fits name) : (e.compile name fallback).2.UpToDate := by
  obtain ⟨e₁, hinquire, hfilled⟩ := e.inquire_spec (sourceUnits name fallback)
  have hfree {us : List CompiledUnit} {u : CompiledUnit}
      (hunits : (sourceUnits name fallback).run e.types = .ok (us, u)) :
      ∀ v ∈ u :: us, e.cache.repository.entries.contains v.name = false := by
    intro v hv
    obtain ⟨-, -, -, -, -, hself | ⟨text, d, rfl, hd⟩⟩ := madeOf_sourceUnits hunits v hv
    · rw [hself, hname]
    · rw [hd]
      exact h.not_stored_expression hfits hname d
  have hkept : (e.compile name fallback).2.UpToDate ∧
      (e.compile name fallback).2.cache.repository = e.cache.repository := by
    refine compile_keeps (P := fun s => s.UpToDate ∧ s.cache.repository = e.cache.repository)
      ?_ fun us u hunits v hv body _ s n hs => ?_
    · rw [hinquire]
      exact ⟨h.filled hfilled, hfilled.cache.repository⟩
    · rw [hinquire] at hunits
      have hv := hfree hunits v hv
      rw [← hs.2] at hv
      exact ⟨hs.1.seed hv body n, hs.2⟩
  exact hkept.1

theorem getExecutable (h : e.UpToDate) {fallback : Option Fallback}
    (hfits : ∀ f ∈ fallback, f.Fits name) : (e.getExecutable name fallback).2.UpToDate := by
  refine getExecutable_keeps (fun _ hfilled => h.filled hfilled)
    fun f hf other e' hfound hfilled => ?_
  have hname := GenerationCache.not_stored_of_read (read_of_found_error hfound).2
  rw [← hfilled.cache.repository] at hname
  exact (h.filled hfilled).compile hname (hfits f hf)

theorem evaluate (h : e.UpToDate) (ref : ExprRef) (t : VariableTable) :
    (e.evaluate ref t).2.UpToDate := by
  rw [evaluate_eq]
  refine h.getExecutable fun f hf => ?_
  cases hf
  trivial

/-- A run leaves the caches up to date. -/
theorem execute (h : e.UpToDate) {fallback : Option Fallback}
    (hfits : ∀ f ∈ fallback, f.Fits name) (values : List Value) :
    (e.execute name fallback values).2.UpToDate :=
  execute_keeps (fun _ ref t h => h.evaluate ref t)
    (fun e name h => h.filled (e.recordType_spec name).2) (h.getExecutable hfits) values

/-- What is stored is found as it is stored, if it is found at all. -/
theorem found_stored (h : e.UpToDate) (hstored : e.cache.repository.entries.contains name = true)
    {content : QualifiedName × UnitBody} (hfound : e.found name = .ok content) :
    content.1 = name ∧ storedBody? e.cache.repository.entries name = some content.2 := by
  unfold found at hfound
  cases hfast : e.fast.get? name with
  | some v =>
    rw [h.apart name v hfast] at hstored
    cases hstored
  | none =>
    rw [hfast] at hfound
    unfold GenerationCache.found at hfound
    cases hcached : e.cache.current.cached? name with
    | some v =>
      rw [hcached] at hfound
      cases hfound
      exact h.current name v hcached
    | none =>
      rw [hcached] at hfound
      cases hread : e.cache.read name with
      | error cause =>
        rw [hread] at hfound
        cases hfound
      | ok body =>
        rw [hread] at hfound
        cases hfound
        exact ⟨rfl, GenerationCache.stored_of_read hread⟩

/-- What is stored is given out as it is stored, if it is given out at all. -/
theorem getExecutable_stored (h : e.UpToDate) {stored : StoredUnit}
    (hstored : e.cache.repository.entries.get? name = some stored) {fallback : Option Fallback}
    {u : ReadyUnit} (hget : (e.getExecutable name fallback).1 = .ok u) :
    u.name = name ∧ Payload.load name stored.payload = .ok u.body := by
  have hcontains : e.cache.repository.entries.contains name = true := by
    rw [Dictionary.contains, hstored]
    rfl
  cases hfound : e.found name with
  | ok content =>
    obtain ⟨v, e', hget', rfl, -⟩ := getExecutable_found hfound fallback
    rw [hget'] at hget
    cases hget
    obtain ⟨hname, hbody⟩ := h.found_stored hcontains hfound
    exact ⟨hname, load_of_storedBody? hstored hbody⟩
  | error cause =>
    obtain ⟨-, hread⟩ := read_of_found_error hfound
    have hcause : ∀ other, cause ≠ .notFound other := by
      rintro other rfl
      rw [GenerationCache.not_stored_of_read hread] at hcontains
      cases hcontains
    obtain ⟨e', hget', -⟩ := getExecutable_unresolved hfound hcause fallback
    rw [hget'] at hget
    cases hget

end UpToDate

/-- A reload brings the caches up to date, whether or not the repository can be reached. -/
theorem upToDate_reload {e : Engine MemoryRepository}
    (hidle : e.cache.repository.transaction = none) (howned : Owned e.cache.repository.entries) :
    e.reload.UpToDate := by
  obtain ⟨version, hfilled⟩ := e.cache.filled_reload
  have hrepository : e.reload.cache.repository = e.cache.repository := hfilled.repository
  refine ⟨hrepository ▸ hidle, hrepository ▸ howned, nofun, fun name u hu => ?_⟩
  rw [hrepository]
  rcases hfilled.loaded name u hu with hu | ⟨hname, hread⟩
  · cases hu
  · have hpublished : (e.cache.publish version).repository = e.cache.repository := rfl
    rw [GenerationCache.read_congr hpublished] at hread
    exact ⟨hname, GenerationCache.stored_of_read hread⟩

end Engine

end Scriptorium

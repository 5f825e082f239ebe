import Scriptorium.Proofs.Engine.Resolution
import Scriptorium.Proofs.Engine.Sources
import Scriptorium.Proofs.Run.Lockstep
import Scriptorium.Proofs.Variable.Calls

/-!
# Engines whose caches agree with the repository

While a repository in memory is available and nobody else changes it, the
current generation holds units as they are stored, and the fast cache holds
scripts and expressions alone. So the record types of the engine are those that
are stored, each of them under its own name, and variables that are assigned
against them hold values of their types.
-/

namespace Scriptorium

/-- The content that is stored under a name, when it can be read. -/
def storedBody? (entries : Contents) (name : QualifiedName) : Option UnitBody :=
  (entries.get? name).bind fun stored => (Payload.load name stored.payload).toOption

/-- The record types that are stored. -/
def storedTypes (entries : Contents) : Registry := fun name =>
  .ok ((storedBody? entries name).bind (·.recordType?))

/-- A record type is read back under its own name alone. -/
theorem storedTypes_named (entries : Contents) : (storedTypes entries).Named := by
  intro name t ht
  obtain ⟨body, hbody, htype⟩ := Option.bind_eq_some_iff.mp (Except.ok.inj ht)
  obtain ⟨stored, -, hbody⟩ := Option.bind_eq_some_iff.mp hbody
  cases hload : Payload.load name stored.payload with
  | error fault =>
    rw [hload] at hbody
    cases hbody
  | ok loaded =>
    rw [hload] at hbody
    cases hbody
    cases body with
    | record u =>
      cases htype
      exact (Payload.load_eq_ok.mp hload).2.2 t rfl
    | _ => cases htype

/-- The source is not one of a record type. -/
def Fallback.IsCode : Fallback → Prop
  | .record _ => False
  | _ => True

/-- Nothing but a record type is stored as one. -/
theorem storedTypes_of_kind {entries : Contents} {name : QualifiedName}
    (h : name.kind ≠ .recordType) : storedTypes entries name = .ok none := by
  unfold storedTypes storedBody?
  cases entries.get? name with
  | none => rfl
  | some stored =>
    dsimp only [Option.bind_some]
    cases hload : Payload.load name stored.payload with
    | error fault => rfl
    | ok body =>
      have hkind := (Payload.load_eq_ok.mp hload).2.1
      exact congrArg Except.ok (body.recordType?_eq_none (hkind ▸ h))

namespace GenerationCache

variable {c : GenerationCache MemoryRepository} {name : QualifiedName}

/-- What is read from a repository that is available. -/
theorem read_eq (h : c.repository.available = true) (name : QualifiedName) :
    c.read name =
      match c.repository.entries.get? name with
      | none => .error (.notFound name)
      | some stored =>
        (Payload.load name stored.payload).mapError fun fault => .compile (.payload name fault) := by
  have hcall : CodeRepository.call (.load name) c.repository =
      (.ok ((c.repository.entries.get? name).map (·.payload)), c.repository) := by
    change MemoryRepository.call Thread.main (.load name) c.repository = _
    simp only [MemoryRepository.call, h]
    rfl
  unfold read payload
  rw [hcall]
  cases c.repository.entries.get? name <;> rfl

theorem read_of_stored (h : c.repository.available = true) {stored : StoredUnit}
    (hstored : c.repository.entries.get? name = some stored) {body : UnitBody}
    (hload : Payload.load name stored.payload = .ok body) : c.read name = .ok body := by
  rw [read_eq h, hstored]
  simp only [hload]
  rfl

end GenerationCache

namespace Engine

/-- The caches of an engine agree with its repository, which is available and not in a
transaction. -/
structure Coherent (e : Engine MemoryRepository) : Prop where
  available : e.cache.repository.available = true
  idle : e.cache.repository.transaction = none
  loaded : ∀ name u, e.cache.current.cached? name = some u →
    u.name = name ∧ e.cache.read name = .ok u.body
  compiled : ∀ name u, e.fast.get? name = some u →
    name.kind ≠ .recordType ∧ u.body.recordType? = none

namespace Coherent

variable {e e' : Engine MemoryRepository} {name : QualifiedName}

/-- What the fast cache does not hold is found as it is stored. -/
theorem found_eq (h : e.Coherent) (hnone : e.fast.get? name = none) :
    e.found name = (e.cache.read name).map fun body => (name, body) := by
  unfold found GenerationCache.found
  rw [hnone]
  cases hcached : e.cache.current.cached? name with
  | none => rfl
  | some u =>
    obtain ⟨hname, hread⟩ := h.loaded name u hcached
    rw [hread]
    simp only [ReadyUnit.content, hname]
    rfl

theorem found_of_stored (h : e.Coherent) (hnone : e.fast.get? name = none) {stored : StoredUnit}
    (hstored : e.cache.repository.entries.get? name = some stored) {body : UnitBody}
    (hload : Payload.load name stored.payload = .ok body) : e.found name = .ok (name, body) := by
  rw [h.found_eq hnone, GenerationCache.read_of_stored h.available hstored hload]
  rfl

/-- The record types of a coherent engine are the stored ones. -/
theorem types_eq (h : e.Coherent) : e.types = storedTypes e.cache.repository.entries := by
  funext name
  rw [types_apply]
  cases hfast : e.fast.get? name with
  | some u =>
    obtain ⟨hkind, hbody⟩ := h.compiled name u hfast
    rw [found_of_fast hfast, storedTypes_of_kind hkind]
    exact congrArg Except.ok hbody
  | none =>
    rw [h.found_eq hfast, GenerationCache.read_eq h.available]
    unfold storedTypes storedBody?
    cases e.cache.repository.entries.get? name with
    | none => rfl
    | some stored =>
      dsimp only [Option.bind_some]
      cases Payload.load name stored.payload <;> rfl

theorem named (h : e.Coherent) : e.types.Named := by
  rw [h.types_eq]
  exact storedTypes_named _

/-- Whatever a table has been through against the record types of the engine, a variable holds a
value of its type, and if no records are handed in, every record in it is as its type describes
it. -/
theorem variable_fits (h : e.Coherent) {values : List Value} {calls : List TableCall} {x : String}
    {v : Variable} (hv : ((VariableTable.withInputs values).after e.types calls).get? x = some v) :
    v.value.Fits v.type ∧
      ((∀ value ∈ values, value.RecordFree) →
        (∀ call ∈ calls, ∀ value, call.assigned? = some value → value.RecordFree) →
          v.value.Built e.types) :=
  ⟨VariableTable.after_fits hv (h.named.names _),
    fun hvalues hcalls => VariableTable.after_built h.named hvalues hcalls hv⟩

theorem filled (h : e.Coherent) (k : Filled e e') : e'.Coherent where
  available := by rw [k.cache.repository, h.available]
  idle := by rw [k.cache.repository, h.idle]
  loaded name u hu := by
    rw [GenerationCache.read_congr k.cache.repository]
    rcases k.cache.loaded name u hu with hu | hread
    · exact h.loaded name u hu
    · exact hread
  compiled name u hu := by
    rw [k.fast] at hu
    exact h.compiled name u hu

theorem seed (h : e.Coherent) {body : UnitBody} (hkind : name.kind ≠ .recordType)
    (hbody : body.recordType? = none) (compilations : Nat) :
    Coherent { (e.seed name body).2 with compilations } where
  available := h.available
  idle := h.idle
  loaded other u hu := by
    have hrepository : (e.seed name body).2.cache.repository = e.cache.repository := rfl
    rw [GenerationCache.read_congr hrepository]
    exact h.loaded other u hu
  compiled other u hu := by
    rcases get?_seed hu with hu | ⟨rfl, rfl⟩
    · exact h.compiled other u hu
    · exact ⟨hkind, hbody⟩

/-- Compiling a script or an expression leaves the caches in agreement with the repository. -/
theorem compile (h : e.Coherent) {fallback : Fallback} (hcode : fallback.IsCode) :
    (e.compile name fallback).2.Coherent := by
  obtain ⟨e₁, hinquire, hfilled⟩ := e.inquire_spec (sourceUnits name fallback)
  refine compile_keeps (P := Coherent) ?_ fun us u hunits v hv body hload s n hs => ?_
  · rw [hinquire]
    exact h.filled hfilled
  · rw [hinquire] at hunits
    obtain ⟨made, source, inputs, hv, hrecord, -⟩ := madeOf_sourceUnits hunits v hv
    have hkind : made.kind ≠ .recordType := by
      intro hkind
      obtain ⟨spec, rfl⟩ := hrecord hkind
      exact hcode
    rw [hv] at hload
    obtain ⟨hloaded, hname⟩ := CompiledUnit.kind_of_load_ofBody hload
    exact hs.seed (hname ▸ hkind) (body.recordType?_eq_none (hloaded ▸ hkind)) n

theorem getExecutable (h : e.Coherent) {fallback : Option Fallback}
    (hcode : ∀ f ∈ fallback, f.IsCode) : (e.getExecutable name fallback).2.Coherent :=
  getExecutable_keeps (fun _ hfilled => h.filled hfilled)
    fun f hf _ _ _ hfilled => (h.filled hfilled).compile (hcode f hf)

theorem evaluate (h : e.Coherent) (ref : ExprRef) (t : VariableTable) :
    (e.evaluate ref t).2.Coherent := by
  rw [evaluate_eq]
  refine h.getExecutable fun f hf => ?_
  cases hf
  trivial

/-- A run leaves the caches in agreement with the repository. -/
theorem execute (h : e.Coherent) {fallback : Option Fallback} (hcode : ∀ f ∈ fallback, f.IsCode)
    (values : List Value) : (e.execute name fallback values).2.Coherent :=
  execute_keeps (fun _ ref t h => h.evaluate ref t)
    (fun e name h => h.filled (e.recordType_spec name).2) (h.getExecutable hcode) values

end Coherent

/-- A reload brings the caches into agreement with the repository. -/
theorem coherent_reload {e : Engine MemoryRepository}
    (havailable : e.cache.repository.available = true)
    (hidle : e.cache.repository.transaction = none) : e.reload.Coherent := by
  obtain ⟨version, hfilled⟩ := e.cache.filled_reload
  have hrepository : e.reload.cache.repository = e.cache.repository := hfilled.repository
  refine ⟨hrepository ▸ havailable, hrepository ▸ hidle, fun name u hu => ?_, nofun⟩
  rw [GenerationCache.read_congr hrepository]
  rcases hfilled.loaded name u hu with hu | ⟨hname, hread⟩
  · cases hu
  · have hpublished : (e.cache.publish version).repository = e.cache.repository := rfl
    rw [GenerationCache.read_congr hpublished] at hread
    exact ⟨hname, hread⟩

end Engine

end Scriptorium

import Scriptorium.Generation.Cache
import Scriptorium.Proofs.Repository.Memory

/-!
# Reading through a generation

Resolving a unit fills the current generation and changes nothing else, as long
as the repository is not changed by being read. What is found under a name,
apart from serial numbers, stays the same: a unit is found where it was loaded
as it is loaded where it was not.
-/

namespace Scriptorium

/-- A repository that stays as it is when a unit is loaded or the version is asked for. -/
class SteadyRepository (σ : Type) [CodeRepository σ] : Prop where
  call_load (name : QualifiedName) (s : σ) : (CodeRepository.call (.load name) s).2 = s
  call_version (s : σ) : (CodeRepository.call .version s).2 = s

instance : SteadyRepository NoRepository := ⟨fun _ _ => rfl, fun _ => rfl⟩

instance : SteadyRepository MemoryRepository :=
  ⟨MemoryRepository.call_load Thread.main, MemoryRepository.call_version Thread.main⟩

/-- What a unit is apart from its serial number. -/
def ReadyUnit.content (u : ReadyUnit) : QualifiedName × UnitBody := (u.name, u.body)

namespace Generation

theorem cached?_add_self (g : Generation) (u : ReadyUnit) :
    (g.add u).cached? u.name = some ((g.cached? u.name).getD u) :=
  Dictionary.get?_insertNew_self g.units u.name u

theorem cached?_add_of_ne (g : Generation) {u : ReadyUnit} {name : QualifiedName}
    (h : name ≠ u.name) : (g.add u).cached? name = g.cached? name :=
  Dictionary.get?_insertNew_of_ne g.units h u

end Generation

namespace GenerationCache

variable {σ : Type} [CodeRepository σ]

/-- The content that the repository has for a name. -/
def read (c : GenerationCache σ) (name : QualifiedName) : Except ResolveError UnitBody :=
  match (c.payload name).1 with
  | .error cause => .error cause
  | .ok payload => (Payload.load name payload).mapError fun fault => .compile (.payload name fault)

/-- The content that is found under a name, loaded or not. -/
def found (c : GenerationCache σ) (name : QualifiedName) :
    Except ResolveError (QualifiedName × UnitBody) :=
  match c.current.cached? name with
  | some u => .ok u.content
  | none => (c.read name).map fun body => (name, body)

/-- The cache is another one but for units that have been loaded. -/
structure Filled (c c' : GenerationCache σ) : Prop where
  repository : c'.repository = c.repository
  kept : ∀ name u, c.current.cached? name = some u → c'.current.cached? name = some u
  loaded : ∀ name u, c'.current.cached? name = some u →
    c.current.cached? name = some u ∨ u.name = name ∧ c.read name = .ok u.body

/-- What the repository has depends on the repository alone. -/
theorem read_congr {c c' : GenerationCache σ} (h : c'.repository = c.repository)
    (name : QualifiedName) : c'.read name = c.read name := by
  have hpayload : (c'.payload name).1 = (c.payload name).1 := by
    unfold payload
    rw [h]
    cases CodeRepository.call (.load name) c.repository with
    | mk answer s => rcases answer with _ | _ | _ <;> rfl
  unfold read
  rw [hpayload]

namespace Filled

variable {c c' c'' : GenerationCache σ}

theorem refl (c : GenerationCache σ) : Filled c c := ⟨rfl, fun _ _ h => h, fun _ _ h => .inl h⟩

theorem trans (h : Filled c c') (k : Filled c' c'') : Filled c c'' where
  repository := k.repository.trans h.repository
  kept name u hu := k.kept name u (h.kept name u hu)
  loaded name u hu := by
    rcases k.loaded name u hu with hu | ⟨hname, hread⟩
    · exact h.loaded name u hu
    · rw [read_congr h.repository] at hread
      exact .inr ⟨hname, hread⟩

theorem found (h : Filled c c') (name : QualifiedName) : c'.found name = c.found name := by
  unfold GenerationCache.found
  cases hbefore : c.current.cached? name with
  | some u => rw [h.kept name u hbefore]
  | none =>
    cases hafter : c'.current.cached? name with
    | none => simp only [read_congr h.repository]
    | some u =>
      rcases h.loaded name u hafter with hu | ⟨hname, hread⟩
      · rw [hbefore] at hu
        cases hu
      · simp only [hread, ReadyUnit.content, hname]
        rfl

end Filled

variable [SteadyRepository σ]

theorem payload_snd (c : GenerationCache σ) (name : QualifiedName) : (c.payload name).2 = c := by
  have hload := SteadyRepository.call_load name c.repository
  unfold payload
  split <;> next h => rw [h] at hload; cases hload; rfl

theorem load_eq (c : GenerationCache σ) (name : QualifiedName) :
    c.load name =
      match c.read name with
      | .error cause => (.error cause, c)
      | .ok body =>
        let (u, c) := c.ready name body
        let (u, c) := c.keep u
        (.ok u, c) := by
  have hpayload : c.payload name = ((c.payload name).1, c) := Prod.ext rfl (c.payload_snd name)
  unfold load read
  rw [hpayload]
  cases (c.payload name).1 with
  | error cause => rfl
  | ok payload =>
    dsimp only
    cases Payload.load name payload <;> rfl

theorem load_error {c : GenerationCache σ} {name : QualifiedName} {cause : ResolveError}
    (h : c.read name = .error cause) : c.load name = (.error cause, c) := by
  rw [load_eq, h]

/-- Loading a unit adds it to the current generation, which may hold one of that name. -/
theorem load_ok {c : GenerationCache σ} {name : QualifiedName} {body : UnitBody}
    (h : c.read name = .ok body) :
    ∃ c', c.load name = (.ok ((c.current.cached? name).getD ⟨name, body, c.made⟩), c') ∧
      c'.repository = c.repository ∧ c'.current = c.current.add ⟨name, body, c.made⟩ := by
  have hkept := c.current.cached?_add_self ⟨name, body, c.made⟩
  rw [load_eq, h]
  refine ⟨(((c.ready name body).2).keep (c.ready name body).1).2, ?_, rfl, rfl⟩
  simp only [ready, keep, hkept, Option.getD_some]

theorem filled_load (c : GenerationCache σ) (name : QualifiedName) : Filled c (c.load name).2 := by
  cases hread : c.read name with
  | error cause =>
    rw [load_error hread]
    exact .refl c
  | ok body =>
    obtain ⟨c', hload, hrepository, hcurrent⟩ := load_ok hread
    rw [hload]
    refine ⟨hrepository, fun other u hu => ?_, fun other u hu => ?_⟩
    · rw [hcurrent]
      by_cases hother : other = name
      · subst hother
        exact (Generation.cached?_add_self c.current ⟨other, body, c.made⟩).trans (by rw [hu]; rfl)
      · rwa [Generation.cached?_add_of_ne _ hother]
    · rw [hcurrent] at hu
      by_cases hother : other = name
      · subst hother
        have hself := Generation.cached?_add_self c.current ⟨other, body, c.made⟩
        rw [hself] at hu
        cases hcached : c.current.cached? other with
        | some v =>
          rw [hcached] at hu
          exact .inl hu
        | none =>
          rw [hcached] at hu
          cases hu
          exact .inr ⟨rfl, hread⟩
      · rw [Generation.cached?_add_of_ne _ hother] at hu
        exact .inl hu

theorem filled_loadAll (c : GenerationCache σ) (names : List QualifiedName) :
    Filled c (c.loadAll names) := by
  unfold loadAll
  induction names generalizing c with
  | nil => exact .refl c
  | cons name names ih => exact (c.filled_load name).trans (ih _)

/-- A reload fills a new generation. -/
theorem filled_reload (c : GenerationCache σ) : ∃ version, Filled (c.publish version) c.reload := by
  have hversion := SteadyRepository.call_version c.repository
  unfold reload reloadInOrder version?
  cases hcall : CodeRepository.call .version c.repository with
  | mk answer repository =>
    rw [hcall] at hversion
    obtain rfl : repository = c.repository := hversion
    exact ⟨answer.toOption, filled_loadAll _ _⟩

/-- Resolving gives what is found, and fills the current generation. -/
theorem resolveCurrent_spec (c : GenerationCache σ) (name : QualifiedName) :
    (c.resolveCurrent name).1.map ReadyUnit.content = c.found name ∧
      Filled c (c.resolveCurrent name).2 := by
  unfold resolveCurrent found
  cases hcached : c.current.cached? name with
  | some u => exact ⟨rfl, .refl c⟩
  | none =>
    refine ⟨?_, filled_load c name⟩
    cases hread : c.read name with
    | error cause =>
      rw [load_error hread]
      rfl
    | ok body =>
      obtain ⟨c', hload, -⟩ := load_ok hread
      rw [hload, hcached]
      rfl

end GenerationCache

end Scriptorium

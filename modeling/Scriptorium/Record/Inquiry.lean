import Scriptorium.Record.Type
import Scriptorium.Repository.Error

/-!
# Computations that ask for record types

Translation, compilation and field assignment look record types up by name. A
lookup may find the type, find that there is none, or fail because the store
cannot be read; it may also change the store's cache. An inquiry is a
computation that has asked for some types and goes on from each answer. It is
carried out by a registry, which answers by name alone, or by a stateful
source, and a source that answers like a registry leads to the same result.
-/

namespace Scriptorium

/-- The answer to a lookup: a type, no type of that name, or a store that cannot be read. -/
abbrev Lookup := Except RepositoryError (Option RecordType)

/-- The answers to all lookups. -/
abbrev Registry := QualifiedName → Lookup

/-- A computation that asks for record types. -/
inductive Inquiry (α : Type u) where
  | answer (a : α)
  | ask (name : QualifiedName) (next : Lookup → Inquiry α)

namespace Inquiry

variable {α : Type u} {β : Type v}

/-- The computation that goes on with the result of another. -/
def bind : Inquiry α → (α → Inquiry β) → Inquiry β
  | answer a, f => f a
  | ask name next, f => ask name fun found => (next found).bind f

instance : Monad Inquiry where
  pure := answer
  bind := bind

/-- Asks for one record type. -/
def lookup (name : QualifiedName) : Inquiry Lookup := ask name answer

/-- The result when every lookup is answered by the registry. -/
def run (registry : Registry) : Inquiry α → α
  | answer a => a
  | ask name next => (next (registry name)).run registry

/-- The result when lookups are answered by a source with a state of its own. -/
def runWith {σ : Type w} (source : QualifiedName → σ → Lookup × σ) : Inquiry α → σ → α × σ
  | answer a, s => (a, s)
  | ask name next, s =>
    let (found, s') := source name s
    (next found).runWith source s'

@[simp] theorem run_pure (registry : Registry) (a : α) :
    (pure a : Inquiry α).run registry = a := rfl

@[simp] theorem run_bind {α β : Type u} (registry : Registry) (x : Inquiry α)
    (f : α → Inquiry β) : (x >>= f).run registry = (f (x.run registry)).run registry := by
  induction x with
  | answer a => rfl
  | ask name next ih => exact ih _

@[simp] theorem run_lookup (registry : Registry) (name : QualifiedName) :
    (lookup name).run registry = registry name := rfl

/-- A source that always answers like the registry leads to the registry's result, and what
every one of its answers preserves holds in the end. -/
theorem runWith_of_answers {σ : Type w} {source : QualifiedName → σ → Lookup × σ}
    {registry : Registry} {Inv : σ → Prop}
    (h : ∀ name s, Inv s → (source name s).1 = registry name ∧ Inv (source name s).2)
    (x : Inquiry α) {s : σ} (hs : Inv s) :
    (x.runWith source s).1 = x.run registry ∧ Inv (x.runWith source s).2 := by
  induction x generalizing s with
  | answer a => exact ⟨rfl, hs⟩
  | ask name next ih =>
    obtain ⟨hfound, hinv⟩ := h name s hs
    have := ih (source name s).1 hinv
    simp only [runWith, run]
    rw [← hfound]
    exact this

/-- What every answer of a source preserves holds in the end. -/
theorem runWith_preserves {σ : Type w} {source : QualifiedName → σ → Lookup × σ} {Inv : σ → Prop}
    (x : Inquiry α) (h : ∀ name s, Inv s → Inv (source name s).2) {s : σ} (hs : Inv s) :
    Inv (x.runWith source s).2 := by
  induction x generalizing s with
  | answer a => exact hs
  | ask name next ih => exact ih _ (h name s hs)

end Inquiry

/-- The registry of a fixed list of record types, the last of two with one name prevailing. -/
def Registry.ofTypes (types : List RecordType) : Registry := fun name =>
  .ok (types.reverse.find? (·.name = name))

end Scriptorium

import Scriptorium.Catalog.Basic
import Scriptorium.Proofs.Repository.Interruption

/-!
# The operations that change a catalog

A script or a record type is stored, new or in place of another, or a script is
deleted. Whoever follows the state of a catalog need not tell these apart by
what they yield. In the repository they do no more than save units and delete
packages.
-/

namespace Scriptorium.Catalog

section Keeping

open Transaction (Keeps)

variable {σ : Type} [CodeRepository σ] {P : σ → Prop}

theorem keeps_saveAll
    (hsave : ∀ name payload source s, P s → P (CodeRepository.call (.save name payload source) s).2)
    (us : List CompiledUnit) : Keeps P (saveAll us) := by
  induction us with
  | nil => exact fun _ h => h
  | cons u us ih =>
    intro s h
    have hs := hsave u.name u.payload u.source s h
    unfold saveAll
    split
    · next hcall => rwa [hcall] at hs
    · next hcall =>
      rw [hcall] at hs
      exact ih _ hs

theorem keeps_delete
    (hdelete : ∀ package s, P s → P (CodeRepository.call (.deleteUnder package) s).2)
    (package : Package) : Keeps P (delete package) := by
  intro s h
  have hs := hdelete package s h
  unfold delete
  split <;> next hcall => rwa [hcall] at hs

/-- What saving and deleting keep is kept when an entry is stored. -/
theorem keeps_store
    (hsave : ∀ name payload source s, P s → P (CodeRepository.call (.save name payload source) s).2)
    (hdelete : ∀ package s, P s → P (CodeRepository.call (.deleteUnder package) s).2)
    (change : Change) (name : QualifiedName) (us : List CompiledUnit) :
    Keeps P (store change name us) := by
  cases change with
  | create => exact keeps_saveAll hsave us
  | update =>
    intro s h
    have hs := keeps_delete hdelete name.package s h
    simp only [store]
    unfold replace
    split
    · next hcall => rwa [hcall] at hs
    · next hcall =>
      rw [hcall] at hs
      exact keeps_saveAll hsave us _ hs

end Keeping

/-- An operation that changes the catalog. -/
inductive Operation where
  | putScript (change : Change) (name body : String)
  | putRecord (change : Change) (name spec : String)
  | deleteScript (name : String)

namespace Operation

/-- The operation reports success or failure, whatever else it yields. -/
def report {σ α : Type} (outcome : Except CatalogError α × Engine σ) :
    Except CatalogError Unit × Engine σ :=
  (outcome.1.map fun _ => (), outcome.2)

/-- Carries out the operation. -/
def perform {σ : Type} [CodeRepository σ] (op : Operation) (e : Engine σ) :
    Except CatalogError Unit × Engine σ :=
  match op with
  | .putScript change name body => report (Catalog.putScript change name body e)
  | .putRecord change name spec => report (Catalog.putRecord change name spec e)
  | .deleteScript name => report (Catalog.deleteScript name e)

theorem report_error {σ α : Type} {outcome : Except CatalogError α × Engine σ}
    {cause : CatalogError} {e : Engine σ} (h : report outcome = (.error cause, e)) :
    outcome = (.error cause, e) := by
  obtain ⟨_ | _, _⟩ := outcome <;> cases h
  rfl

theorem report_ok {σ α : Type} {outcome : Except CatalogError α × Engine σ} {e : Engine σ}
    (h : report outcome = (.ok (), e)) : ∃ a, outcome = (.ok a, e) := by
  obtain ⟨_ | a, _⟩ := outcome <;> cases h
  exact ⟨a, rfl⟩

end Operation

end Scriptorium.Catalog

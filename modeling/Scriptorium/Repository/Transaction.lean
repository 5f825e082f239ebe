import Scriptorium.Repository.Basic

/-!
# Work in transactions

Work on a repository is done in a transaction that is kept when all of it
succeeded and undone otherwise. A commit that fails counts as a failure of the
work, and a transaction that cannot be undone is left as it is.
-/

namespace Scriptorium

/-- Work on a repository, which may fail for reasons of its own. -/
abbrev Work (σ ε α : Type) := σ → Except ε α × σ

namespace Transaction

variable {σ ε α : Type} [CodeRepository σ]

/-- Undoes the open transaction because of a failure. -/
def abandon (cause : ε) (s : σ) : Except ε α × σ :=
  (.error cause, (CodeRepository.call .rollback s).2)

/-- Keeps the changes of the open transaction, or undoes them when that fails. -/
def conclude (refused : RepositoryError → ε) (a : α) (s : σ) : Except ε α × σ :=
  match CodeRepository.call .commit s with
  | (.error cause, s) => abandon (refused cause) s
  | (.ok (), s) => (.ok a, s)

/-- Does work in a transaction. -/
def run (refused : RepositoryError → ε) (work : Work σ ε α) : Work σ ε α := fun s =>
  match CodeRepository.call .begin s with
  | (.error cause, s) => (.error (refused cause), s)
  | (.ok (), s) =>
    match work s with
    | (.error cause, s) => abandon cause s
    | (.ok a, s) => conclude refused a s

end Transaction

end Scriptorium

import Scriptorium.Repository.Error

/-!
# Repositories of code

A repository keeps the payloads of units, with their source texts, under the
units' names. Everything that happens to it is one of eight requests, so a
layer around a repository (one that fails on purpose, one that lets others
change the contents between requests) has a single operation to supply. A
version token marks the state of the contents; tokens are compared for
equality and nothing else.
-/

namespace Scriptorium

/-- A mark of the state of a repository. -/
structure VersionToken where
  text : String
  deriving DecidableEq, Repr

/-- The requests to a repository, by the type of their answers. -/
inductive Request : Type → Type 1 where
  /-- The payload stored under the name. -/
  | load (name : QualifiedName) : Request (Option String)
  /-- Stores a new unit; a name that is taken is refused. -/
  | save (name : QualifiedName) (payload : String) (source : Option String) : Request Unit
  /-- Deletes the units that the package covers and counts them. -/
  | deleteUnder (package : Package) : Request Nat
  /-- The source text stored with the unit. -/
  | source (name : QualifiedName) : Request (Option String)
  /-- The present version. -/
  | version : Request VersionToken
  /-- Opens a transaction. -/
  | begin : Request Unit
  /-- Closes the transaction and keeps its changes. -/
  | commit : Request Unit
  /-- Closes the transaction and undoes its changes. -/
  | rollback : Request Unit

/-- The answer to a request, and the repository after it. -/
abbrev Reply (σ α : Type) := Except RepositoryError α × σ

/-- A repository answers every request. -/
class CodeRepository (σ : Type) where
  call : {α : Type} → Request α → σ → Reply σ α

/-- Where no repository is configured nothing is stored and nothing can be. -/
structure NoRepository where
  deriving DecidableEq, Repr

/-- The reason for refusing what needs a repository. -/
def NoRepository.absent : RepositoryError := .access "no repository is configured"

instance : CodeRepository NoRepository where
  call
    | .load _, s => (.ok none, s)
    | .source _, s => (.ok none, s)
    | .deleteUnder _, s => (.ok 0, s)
    | .save .., s => (.error NoRepository.absent, s)
    | .version, s => (.error NoRepository.absent, s)
    | .begin, s => (.error NoRepository.absent, s)
    | .commit, s => (.error NoRepository.absent, s)
    | .rollback, s => (.error NoRepository.absent, s)

end Scriptorium

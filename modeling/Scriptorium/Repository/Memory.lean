import Scriptorium.Dictionary
import Scriptorium.Repository.Basic
import Scriptorium.Text.Numeral

/-!
# A repository in memory

The contents are a dictionary. A transaction belongs to the thread that opened
it and keeps the contents as they were, to be restored if it is undone; while
it is open every call of another thread waits. The version advances by one with
every change outside a transaction, and once for a transaction that changed
something and is kept.

A repository can be made unavailable; then it refuses every request but the
undoing of a transaction. Whether it is available is asked before waiting.
-/

namespace Scriptorium

/-- A thread that calls a repository. -/
abbrev Thread := Nat

/-- The thread of programs that use a single one. -/
def Thread.main : Thread := 0

/-- What is stored under one name. -/
structure StoredUnit where
  payload : String
  source : Option String
  deriving DecidableEq, Repr

/-- What is stored, by name. -/
abbrev Contents := Dictionary QualifiedName StoredUnit

/-- An open transaction. -/
structure OpenTransaction where
  owner : Thread
  /-- The contents when the transaction was opened. -/
  snapshot : Contents
  /-- Something has changed since. -/
  dirty : Bool

/-- A repository that keeps its contents in memory. -/
structure MemoryRepository where
  entries : Contents
  /-- The number of changes so far. It grows without bound: a counter of 64 bits is taken not to
  overflow. -/
  version : Nat
  transaction : Option OpenTransaction
  available : Bool

namespace MemoryRepository

/-- The repository without contents. -/
def empty : MemoryRepository := ⟨∅, 0, none, true⟩

/-- The reason for refusing requests while unavailable. -/
def unavailable : RepositoryError := .access "memory repository is unavailable"

/-- The thread has to wait for another one's transaction to end. -/
def mustWait (r : MemoryRepository) (thread : Thread) : Bool :=
  r.transaction.any (·.owner ≠ thread)

/-- The names of all stored units, in order. -/
def names (r : MemoryRepository) : List QualifiedName := r.entries.keys

/-- The present version as callers see it. -/
def token (r : MemoryRepository) : VersionToken := ⟨String.ofList (Text.natDigits r.version)⟩

/-- Advances the version without changing the contents. -/
def touch (r : MemoryRepository) : MemoryRepository := { r with version := r.version + 1 }

/-- Makes the repository available or unavailable. -/
def setAvailable (r : MemoryRepository) (available : Bool) : MemoryRepository :=
  { r with available }

/-- The repository with changed contents: a transaction notes the change, and outside of one
the version advances. -/
def change (r : MemoryRepository) (entries : Contents) : MemoryRepository :=
  match r.transaction with
  | some t => { r with entries, transaction := some { t with dirty := true } }
  | none => { r with entries, version := r.version + 1 }

/-- Stores a new unit. -/
def save (r : MemoryRepository) (name : QualifiedName) (u : StoredUnit) :
    Reply MemoryRepository Unit :=
  if r.entries.contains name then (.error (.alreadyExists name), r)
  else (.ok (), r.change (r.entries.insert name u))

/-- Deletes the units that a package covers. -/
def deleteUnder (r : MemoryRepository) (package : Package) : Reply MemoryRepository Nat :=
  let kept := r.entries.filterKeys fun name => !package.covers name
  let deleted := r.entries.size - kept.size
  (.ok deleted, if deleted = 0 then r else r.change kept)

/-- Opens a transaction for a thread. -/
def begin (r : MemoryRepository) (thread : Thread) : Reply MemoryRepository Unit :=
  match r.transaction with
  | some _ => (.error .transactionInProgress, r)
  | none => (.ok (), { r with transaction := some ⟨thread, r.entries, false⟩ })

/-- Closes the transaction and keeps its changes. -/
def commit (r : MemoryRepository) : Reply MemoryRepository Unit :=
  match r.transaction with
  | none => (.error .noTransaction, r)
  | some t =>
    (.ok (), { r with
      version := if t.dirty then r.version + 1 else r.version
      transaction := none })

/-- Closes the transaction and restores the contents. -/
def rollback (r : MemoryRepository) : Reply MemoryRepository Unit :=
  match r.transaction with
  | none => (.error .noTransaction, r)
  | some t => (.ok (), { r with entries := t.snapshot, transaction := none })

/-- Answers the request of a thread that need not wait, whether available or not. -/
def perform {α : Type} (thread : Thread) : Request α → MemoryRepository → Reply MemoryRepository α
  | .load name, r => (.ok ((r.entries.get? name).map (·.payload)), r)
  | .save name payload source, r => r.save name ⟨payload, source⟩
  | .deleteUnder package, r => r.deleteUnder package
  | .source name, r => (.ok ((r.entries.get? name).bind (·.source)), r)
  | .version, r => (.ok r.token, r)
  | .begin, r => r.begin thread
  | .commit, r => r.commit
  | .rollback, r => r.rollback

/-- The request is answered only while the repository is available. -/
def needsAvailable {α : Type} : Request α → Bool
  | .rollback => false
  | _ => true

/-- Answers the request of a thread that need not wait. -/
def call {α : Type} (thread : Thread) (q : Request α) (r : MemoryRepository) :
    Reply MemoryRepository α :=
  if needsAvailable q && !r.available then (.error unavailable, r) else perform thread q r

instance : CodeRepository MemoryRepository where
  call q r := call Thread.main q r

end MemoryRepository

end Scriptorium

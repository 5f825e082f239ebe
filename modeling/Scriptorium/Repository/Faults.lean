import Scriptorium.Repository.Basic

/-!
# Failures on purpose

A layer around a repository that lets a chosen number of calls of one method
pass, fails the next one before it reaches the repository, and is then as if it
had never been armed.
-/

namespace Scriptorium

/-- The methods of a repository. -/
inductive Method where
  | load
  | save
  | delete
  | source
  | version
  | begin
  | commit
  | rollback
  deriving DecidableEq, Repr

/-- The name of a method. -/
def Method.name : Method → String
  | .load => "load"
  | .save => "save"
  | .delete => "delete"
  | .source => "source"
  | .version => "version"
  | .begin => "begin"
  | .commit => "commit"
  | .rollback => "rollback"

/-- All methods. -/
def Method.all : List Method :=
  [.load, .save, .delete, .source, .version, .begin, .commit, .rollback]

/-- The method that a request calls. -/
def Request.method {α : Type} : Request α → Method
  | .load _ => .load
  | .save .. => .save
  | .deleteUnder _ => .delete
  | .source _ => .source
  | .version => .version
  | .begin => .begin
  | .commit => .commit
  | .rollback => .rollback

/-- A repository, and how many calls of a method still pass before one fails. -/
structure FaultyRepository (σ : Type) where
  inner : σ
  countdown : Method → Option Nat

namespace FaultyRepository

/-- A repository of which no call fails on purpose. -/
def around {σ : Type} (inner : σ) : FaultyRepository σ := ⟨inner, fun _ => none⟩

/-- The state with another countdown for one method. -/
def setCountdown {σ : Type} (f : FaultyRepository σ) (method : Method) (left : Option Nat) :
    FaultyRepository σ :=
  { f with countdown := fun m => if m = method then left else f.countdown m }

/-- Arms a failure of the method behind a number of calls that pass. -/
def arm {σ : Type} (f : FaultyRepository σ) (method : Method) (passing : Nat) :
    FaultyRepository σ :=
  f.setCountdown method (some passing)

/-- The failure that a method is given. -/
def injected (method : Method) : RepositoryError := .access s!"injected {method.name} failure"

/-- Passes a request on. -/
def forward {σ α : Type} [CodeRepository σ] (q : Request α) (f : FaultyRepository σ) :
    Reply (FaultyRepository σ) α :=
  let (answer, inner) := CodeRepository.call q f.inner
  (answer, { f with inner })

instance {σ : Type} [CodeRepository σ] : CodeRepository (FaultyRepository σ) where
  call q f :=
    match f.countdown q.method with
    | some 0 => (.error (injected q.method), f.setCountdown q.method none)
    | some (n + 1) => forward q (f.setCountdown q.method (some n))
    | none => forward q f

end FaultyRepository

end Scriptorium

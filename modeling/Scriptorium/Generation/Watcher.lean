import Scriptorium.Generation.Cache

/-!
# Watching a repository

A watcher remembers the version of the repository that it saw last. A poll
reloads the cache when the version has moved. Every reload, whoever asked for
it, tells the watcher the version that was read before the units were loaded,
so a change that arrives while they are loaded is found by the next poll and a
change that the reload covers is not found again.
-/

namespace Scriptorium

/-- What a poll found. -/
inductive PollOutcome where
  | unchanged
  | reloaded
  /-- The version could not be read, which counts as no change. -/
  | unavailable
  deriving DecidableEq, Repr

/-- The version that was seen last. -/
structure Watcher where
  lastSeen : Option VersionToken
  deriving DecidableEq, Repr

namespace Watcher

/-- The seconds between two polls when nothing else is asked for. -/
def defaultInterval : Nat := 10

variable {σ : Type} [CodeRepository σ]

/-- A watcher that starts from the present version. -/
def start (c : GenerationCache σ) : Watcher × GenerationCache σ :=
  let (version, c) := c.version?
  (⟨version⟩, c)

/-- The watcher after a reload that published this generation. -/
def afterReload (w : Watcher) (g : Generation) : Watcher := ⟨g.version.or w.lastSeen⟩

/-- What a poll finds when it reads the version. -/
def compare (w : Watcher) : Option VersionToken → PollOutcome
  | none => .unavailable
  | some version => if w.lastSeen = some version then .unchanged else .reloaded

/-- Reloads the cache if the version has moved, loading these names in this order. -/
def pollInOrder (w : Watcher) (c : GenerationCache σ) (names : List QualifiedName) :
    PollOutcome × Watcher × GenerationCache σ :=
  let (version, c) := c.version?
  let outcome := w.compare version
  if outcome = .reloaded then
    let c := c.reloadInOrder names
    (outcome, w.afterReload c.current, c)
  else (outcome, w, c)

end Watcher

end Scriptorium

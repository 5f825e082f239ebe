import Scriptorium.Generation.Basic
import Scriptorium.Record.Inquiry
import Scriptorium.Unit.Compile

/-!
# The cache of the current generation

Units are resolved through a generation: what it does not hold yet is loaded
from the repository and added to it. Only the current generation can be
resolved through; earlier ones keep what they hold. A reload publishes a new
generation and loads every name of the one before, in whatever order; names that
cannot be loaded any more are left out. The version of the repository is read
before the new generation is published, so each of its units is at least as
recent.
-/

namespace Scriptorium

/-- Why a unit could not be resolved. -/
inductive ResolveError where
  | notFound (name : QualifiedName)
  | obsoleteGeneration (stale current : Nat)
  | repository (cause : RepositoryError)
  | compile (cause : CompileError)
  deriving Repr

namespace ResolveError

/-- The message about a unit that could not be resolved. -/
def message : ResolveError → String
  | .notFound name => s!"Compiled unit [{name}] was not found"
  | .obsoleteGeneration stale current =>
    s!"Generation {stale} is obsolete, the current generation is {current}"
  | .repository cause => cause.message
  | .compile cause => cause.message

/-- The messages of the failures underneath, the nearest first. -/
def causes : ResolveError → List String
  | .compile cause => cause.causes
  | _ => []

end ResolveError

/-- A reference to one generation of one cache. -/
structure GenerationHandle where
  cache : Nat
  generation : Nat
  deriving DecidableEq, Repr

/-- A repository with the generations of units loaded from it. -/
structure GenerationCache (σ : Type) where
  /-- Caches whose handles are used side by side have different numbers. -/
  id : Nat
  repository : σ
  current : Generation
  /-- The generations before the current one, the latest first. -/
  past : List Generation
  /-- The number of units made ready so far. -/
  made : Nat

namespace GenerationCache

variable {σ : Type}

/-- A cache over a repository from which nothing has been loaded. -/
def ofRepository (repository : σ) (id : Nat) : GenerationCache σ :=
  ⟨id, repository, .fresh 1 none, [], 0⟩

/-- The reference to the current generation. -/
def handle (c : GenerationCache σ) : GenerationHandle := ⟨c.id, c.current.id⟩

/-- The generation that a handle of this cache refers to. -/
def generation? (c : GenerationCache σ) (h : GenerationHandle) : Option Generation :=
  if h.cache = c.id then (c.current :: c.past).find? (·.id = h.generation) else none

/-- Every reload so far, the first one first: the generation it published and the version read
for it. -/
def reloads (c : GenerationCache σ) : List (Nat × Option VersionToken) :=
  ((c.current :: c.past).reverse.drop 1).map fun g => (g.id, g.version)

/-- A new ready unit. -/
def ready (c : GenerationCache σ) (name : QualifiedName) (body : UnitBody) :
    ReadyUnit × GenerationCache σ :=
  (⟨name, body, c.made⟩, { c with made := c.made + 1 })

/-- Adds a unit to the current generation and yields the unit that it then holds. -/
def keep (c : GenerationCache σ) (u : ReadyUnit) : ReadyUnit × GenerationCache σ :=
  let current := c.current.add u
  ((current.cached? u.name).getD u, { c with current })

/-- The payload in the repository. -/
def payload [CodeRepository σ] (c : GenerationCache σ) (name : QualifiedName) :
    Except ResolveError String × GenerationCache σ :=
  match CodeRepository.call (.load name) c.repository with
  | (.error cause, repository) => (.error (.repository cause), { c with repository })
  | (.ok none, repository) => (.error (.notFound name), { c with repository })
  | (.ok (some payload), repository) => (.ok payload, { c with repository })

/-- Loads a unit from the repository into the current generation. -/
def load [CodeRepository σ] (c : GenerationCache σ) (name : QualifiedName) :
    Except ResolveError ReadyUnit × GenerationCache σ :=
  match c.payload name with
  | (.error e, c) => (.error e, c)
  | (.ok payload, c) =>
    match Payload.load name payload with
    | .error fault => (.error (.compile (.payload name fault)), c)
    | .ok body =>
      let (u, c) := c.ready name body
      let (u, c) := c.keep u
      (.ok u, c)

/-- The unit under a name, loaded when the current generation does not hold it yet. -/
def resolveCurrent [CodeRepository σ] (c : GenerationCache σ) (name : QualifiedName) :
    Except ResolveError ReadyUnit × GenerationCache σ :=
  match c.current.cached? name with
  | some u => (.ok u, c)
  | none => c.load name

/-- The unit under a name, through the generation that a handle refers to. -/
def resolve [CodeRepository σ] (c : GenerationCache σ) (h : GenerationHandle)
    (name : QualifiedName) : Except ResolveError ReadyUnit × GenerationCache σ :=
  if h = c.handle then c.resolveCurrent name
  else (.error (.obsoleteGeneration h.generation c.current.id), c)

/-- The present version of the repository, when it can be read. -/
def version? [CodeRepository σ] (c : GenerationCache σ) :
    Option VersionToken × GenerationCache σ :=
  let (answer, repository) := CodeRepository.call .version c.repository
  (answer.toOption, { c with repository })

/-- Makes an empty generation the current one. -/
def publish (c : GenerationCache σ) (version : Option VersionToken) : GenerationCache σ :=
  { c with current := .fresh (c.current.id + 1) version, past := c.current :: c.past }

/-- Loads several units into the current generation, leaving out those that cannot be loaded. -/
def loadAll [CodeRepository σ] (c : GenerationCache σ) (names : List QualifiedName) :
    GenerationCache σ :=
  names.foldl (fun c name => (c.load name).2) c

/-- Publishes a new generation and loads these names, in this order. -/
def reloadInOrder [CodeRepository σ] (c : GenerationCache σ) (names : List QualifiedName) :
    GenerationCache σ :=
  let (version, c) := c.version?
  (c.publish version).loadAll names

/-- Publishes a new generation and loads the names of the one before. A generation keeps its names
in no order of its own; here they are loaded in ascending order. -/
def reload [CodeRepository σ] (c : GenerationCache σ) : GenerationCache σ :=
  c.reloadInOrder c.current.names

/-- The record type under a name. A unit that cannot be used counts as no type; a repository
that cannot be read does not. -/
def recordType [CodeRepository σ] (name : QualifiedName) (c : GenerationCache σ) :
    Lookup × GenerationCache σ :=
  match c.resolveCurrent name with
  | (.ok u, c) => (.ok u.body.recordType?, c)
  | (.error (.repository cause), c) => (.error cause, c)
  | (.error _, c) => (.ok none, c)

end GenerationCache

end Scriptorium

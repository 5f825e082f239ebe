import Scriptorium.Catalog.Basic
import Scriptorium.Config.Basic
import Scriptorium.Text.Chain

/-!
# Starting an application

An application is an engine over a repository with its configuration. On the
way up it registers record types and then scripts, each from its source: what
is stored with the same source stays, what is stored with another is updated,
and the rest is created. Then the repository is watched if that is wanted.
-/

namespace Scriptorium

/-- A source to be registered under a name. -/
structure NamedSource where
  name : String
  source : String
  deriving DecidableEq, Repr

/-- Why an application did not start. -/
inductive StartError where
  | config (cause : ConfigError)
  | unreadable (cause : CatalogError)
  | notRegistered (kind : EntryKind) (name : String) (cause : CatalogError)
  deriving Repr

/-- The message about an application that did not start, with all causes. -/
def StartError.message : StartError → String
  | .config cause => cause.message
  | .unreadable cause => Text.fullChain cause.message cause.causes
  | .notRegistered kind name cause =>
    Text.fullChain s!"Failed to register {kind.text} [{name}]" (cause.message :: cause.causes)

/-- An application. -/
structure Application (σ : Type) where
  config : Config
  engine : Engine σ

namespace Application

variable {σ : Type} [CodeRepository σ]

/-- Stores an entry and forgets what the catalog answers. -/
def put (change : Change) (kind : EntryKind) (s : NamedSource) (e : Engine σ) :
    Except CatalogError Unit × Engine σ :=
  match kind with
  | .recordType => Catalog.putRecord change s.name s.source e
  | .script =>
    let (outcome, e) := Catalog.putScript change s.name s.source e
    (outcome.map fun _ => (), e)

/-- Creates or updates an entry unless it is stored with the same source. -/
def register (kind : EntryKind) (s : NamedSource) (e : Engine σ) :
    Except StartError Unit × Engine σ :=
  match Catalog.source kind s.name e with
  | (.error cause, e) => (.error (.unreadable cause), e)
  | (.ok stored, e) =>
    if stored = some s.source then (.ok (), e)
    else
      let change := if stored.isSome then Change.update else Change.create
      let (outcome, e) := put change kind s e
      (outcome.mapError (.notRegistered kind s.name), e)

/-- Registers entries one after the other until one is refused. -/
def registerAll (kind : EntryKind) : List NamedSource → Engine σ →
    Except StartError Unit × Engine σ
  | [], e => (.ok (), e)
  | s :: rest, e =>
    match register kind s e with
    | (.error cause, e) => (.error cause, e)
    | (.ok (), e) => registerAll kind rest e

/-- An application over a repository, before anything is registered or watched. -/
def ofRepository (config : Config) (repository : σ) : Application σ :=
  ⟨config, (Engine.ofRepository repository 0).withDebug config.logging.runtimeDebug⟩

/-- The repository is being watched. -/
def isWatching (a : Application σ) : Bool := a.engine.watcher.isSome

/-- Watches the repository when that is wanted and polls can run in the background. -/
def watch (a : Application σ) (background : Bool) : Application σ :=
  if a.isWatching || !a.config.watcher.enabled || !background then a
  else { a with engine := a.engine.watch }

/-- Registers sources, then watches the repository if the configuration says so. -/
def start (config : Config) (repository : σ) (records scripts : List NamedSource) :
    Except StartError Unit × Application σ :=
  match registerAll .recordType records (ofRepository config repository).engine with
  | (.error cause, engine) => (.error cause, ⟨config, engine⟩)
  | (.ok (), engine) =>
    match registerAll .script scripts engine with
    | (.error cause, engine) => (.error cause, ⟨config, engine⟩)
    | (.ok (), engine) => (.ok (), (Application.mk config engine).watch true)

end Application

end Scriptorium

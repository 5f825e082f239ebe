import Scriptorium.Generation.Watcher
import Scriptorium.Target.Evaluate

/-!
# The engine

The engine finds executable units. It looks in its fast cache first, then in
the current generation of units from the repository, and where neither has the
unit it compiles a source given by the caller, if there is one. Units compiled
in this way are kept in the fast cache, where the first one of a name stays
until the next reload empties the cache.
-/

namespace Scriptorium

/-- Why the engine failed. -/
inductive ExecutionError where
  | notFound (name : QualifiedName)
  | resolve (cause : ResolveError)
  | compile (cause : CompileError)
  | binding (cause : VariableError)
  | evaluation (expression : String) (cause : EvalError)
  | wrongKind (name : QualifiedName) (expected found : UnitKind)
  deriving Repr

namespace ExecutionError

/-- The message of a failure of the engine. -/
def message : ExecutionError → String
  | .notFound name =>
    s!"Compiled unit [{name}] was not found and no source was given to compile it"
  | .resolve cause => cause.message
  | .compile cause => cause.message
  | .binding cause => cause.message
  | .evaluation expression cause =>
    s!"Evaluation of expression [{expression}] failed: {cause.message}"
  | .wrongKind name expected found =>
    s!"Compiled unit [{name}] is a {found.text}, expected a {expected.text}"

/-- The messages of the failures underneath, the nearest first. -/
def causes : ExecutionError → List String
  | .resolve cause => cause.causes
  | .compile cause => cause.causes
  | .binding cause => cause.causes
  | .evaluation _ cause => [cause.message]
  | _ => []

end ExecutionError

/-- A source to compile when a unit is neither cached nor stored. -/
inductive Fallback where
  | expression (text : String) (table : VariableTable)
  | script (body : String)
  | record (spec : String)

/-- An engine over the repository of its cache. -/
structure Engine (σ : Type) where
  cache : GenerationCache σ
  /-- The units that the engine has compiled since the last reload. -/
  fast : Dictionary QualifiedName ReadyUnit
  /-- The number of sources compiled so far. -/
  compilations : Nat
  watcher : Option Watcher
  /-- Assignments and conditions are logged. -/
  debug : Bool

namespace Engine

variable {σ : Type}

/-- An engine that has found nothing yet, over a cache with this number. -/
def ofRepository (repository : σ) (id : Nat) : Engine σ :=
  ⟨.ofRepository repository id, ∅, 0, none, false⟩

/-- An engine without a repository: every unit is compiled on first use. -/
def standalone : Engine NoRepository := ofRepository {} 0

/-- The engine with its logging of assignments and conditions turned on or off. -/
def withDebug (e : Engine σ) (debug : Bool) : Engine σ := { e with debug }

/-- Puts a unit into the fast cache, unless it holds one of that name, and yields the unit that
it then holds. -/
def seed (e : Engine σ) (name : QualifiedName) (body : UnitBody) : ReadyUnit × Engine σ :=
  let (u, cache) := e.cache.ready name body
  let fast := e.fast.insertNew name u
  ((fast.get? name).getD u, { e with cache, fast })

variable [CodeRepository σ]

/-- Resolves a unit in the repository. -/
def resolveStored (e : Engine σ) (name : QualifiedName) :
    Except ResolveError ReadyUnit × Engine σ :=
  let (found, cache) := e.cache.resolveCurrent name
  (found, { e with cache })

/-- The record type under a name. What the fast cache holds under it comes first. -/
def recordType (name : QualifiedName) (e : Engine σ) : Lookup × Engine σ :=
  match e.fast.get? name with
  | some u => (.ok u.body.recordType?, e)
  | none =>
    let (found, cache) := e.cache.recordType name
    (found, { e with cache })

/-- Carries out a computation that asks for record types. -/
def inquire {α : Type} (e : Engine σ) (x : Inquiry α) : α × Engine σ :=
  x.runWith recordType e

/-- Loads compiled units into the fast cache, one after the other until one cannot be
loaded. -/
def seedAll (e : Engine σ) : List CompiledUnit → Except CompileError Unit × Engine σ
  | [] => (.ok (), e)
  | u :: rest =>
    match u.load with
    | .error cause => (.error cause, e)
    | .ok body => (e.seed u.name body).2.seedAll rest

/-- Loads a compiled unit into the fast cache and counts the compilation. -/
def install (e : Engine σ) (u : CompiledUnit) : Except CompileError ReadyUnit × Engine σ :=
  match u.load with
  | .error cause => (.error cause, e)
  | .ok body =>
    let (u, e) := e.seed u.name body
    (.ok u, { e with compilations := e.compilations + 1 })

/-- Compiles a source into the fast cache. The expressions of a script are cached before the
script itself. -/
def compile (e : Engine σ) (name : QualifiedName) :
    Fallback → Except CompileError ReadyUnit × Engine σ
  | .expression text table =>
    match e.inquire (Compile.expression name text table) with
    | (.error cause, e) => (.error cause, e)
    | (.ok u, e) => e.install u
  | .script body =>
    match e.inquire (Compile.script name body) with
    | (.error cause, e) => (.error cause, e)
    | (.ok compiled, e) =>
      match e.seedAll compiled.expressions with
      | (.error cause, e) => (.error cause, e)
      | (.ok (), e) => e.install compiled.script
  | .record spec =>
    match e.inquire (Compile.recordType name spec) with
    | (.error cause, e) => (.error cause, e)
    | (.ok u, e) => e.install u

/-- The unit under a name that is in neither cache nor repository: the compiled source, if
there is one. -/
def compileMissing (e : Engine σ) (name : QualifiedName) :
    Option Fallback → Except ExecutionError ReadyUnit × Engine σ
  | none => (.error (.notFound name), e)
  | some fallback =>
    let (compiled, e) := e.compile name fallback
    (compiled.mapError .compile, e)

/-- The unit under a name, compiled from the fallback when it is neither cached nor stored. -/
def getExecutable (e : Engine σ) (name : QualifiedName) (fallback : Option Fallback) :
    Except ExecutionError ReadyUnit × Engine σ :=
  match e.fast.get? name with
  | some u => (.ok u, e)
  | none =>
    match e.resolveStored name with
    | (.ok u, e) => (.ok u, e)
    | (.error (.notFound _), e) => e.compileMissing name fallback
    | (.error cause, e) => (.error (.resolve cause), e)

/-- Compiles a record type unless it is known already. -/
def defineRecord (e : Engine σ) (name : QualifiedName) (spec : String) :
    Except ExecutionError ReadyUnit × Engine σ :=
  e.getExecutable name (some (.record spec))

/-- The value of an expression over variables. -/
def evaluate (e : Engine σ) (ref : ExprRef) (table : VariableTable) :
    Except ExecutionError Value × Engine σ :=
  match e.getExecutable ref.name (some (.expression ref.source table)) with
  | (.error cause, e) => (.error cause, e)
  | (.ok u, e) =>
    match u.body.expression? with
    | none => (.error (.wrongKind u.name .expression u.body.kind), e)
    | some target => ((Evaluate.expr table target).mapError (.evaluation ref.source), e)

/-- What a reload leads to: the fast cache is emptied and the watcher learns the version. -/
def afterReload (e : Engine σ) (cache : GenerationCache σ) : Engine σ :=
  { e with cache, fast := ∅, watcher := e.watcher.map (·.afterReload cache.current) }

/-- Publishes a new generation and loads these names into it, in this order. -/
def reloadInOrder (e : Engine σ) (names : List QualifiedName) : Engine σ :=
  e.afterReload (e.cache.reloadInOrder names)

/-- Publishes a new generation. -/
def reload (e : Engine σ) : Engine σ := e.reloadInOrder e.cache.current.names

/-- The engine with a watcher that starts from the present version. -/
def watch (e : Engine σ) : Engine σ :=
  let (watcher, cache) := Watcher.start e.cache
  { e with cache, watcher := some watcher }

/-- One poll of a watcher: if the version has moved, reloads these names in this order. -/
def pollWithInOrder (e : Engine σ) (w : Watcher) (names : List QualifiedName) :
    PollOutcome × Watcher × Engine σ :=
  let (outcome, w, cache) := w.pollInOrder e.cache names
  (outcome, w, if outcome = .reloaded then e.afterReload cache else { e with cache })

/-- One poll of a watcher: reloads if the version has moved. -/
def pollWith (e : Engine σ) (w : Watcher) : PollOutcome × Watcher × Engine σ :=
  e.pollWithInOrder w e.cache.current.names

/-- One poll of the engine's own watcher, if it has one, which reloads these names in this order. -/
def pollInOrder (e : Engine σ) (names : List QualifiedName) : PollOutcome × Engine σ :=
  match e.watcher with
  | none => (.unchanged, e)
  | some w =>
    let (outcome, _, e) := e.pollWithInOrder w names
    (outcome, e)

/-- One poll of the engine's own watcher, if it has one. -/
def poll (e : Engine σ) : PollOutcome × Engine σ := e.pollInOrder e.cache.current.names

end Engine

end Scriptorium

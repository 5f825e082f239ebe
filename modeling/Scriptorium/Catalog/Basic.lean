import Scriptorium.Engine.Basic
import Scriptorium.Repository.Transaction

/-!
# The catalog of scripts and record types

Scripts and record types are kept under the names that people give them. A
change compiles the source first, stores the units in one transaction, and then
reloads the cache; a change that fails stores nothing and reloads nothing. A
script is replaced or deleted together with the expressions it owns.
-/

namespace Scriptorium

/-- What a catalog lists. -/
inductive EntryKind where
  | script
  | recordType
  deriving DecidableEq, Repr

namespace EntryKind

/-- The words for what a catalog lists. -/
def text : EntryKind → String
  | .script => "script"
  | .recordType => "record type"

/-- The name of the unit of an entry. -/
def unitName : EntryKind → String → QualifiedName
  | .script => QualifiedName.script
  | .recordType => QualifiedName.record

end EntryKind

/-- How an entry is stored. -/
inductive Change where
  | create
  | update
  deriving DecidableEq, Repr

/-- The verb for a change. -/
def Change.text : Change → String
  | .create => "create"
  | .update => "update"

/-- Why an entry was not stored. -/
inductive ChangeFault where
  | compile (cause : CompileError)
  | repository (cause : RepositoryError)
  deriving Repr

namespace ChangeFault

/-- The message about an entry that was not stored. -/
def message : ChangeFault → String
  | .compile cause => cause.message
  | .repository cause => cause.message

/-- The messages of the failures underneath, the nearest first. -/
def causes : ChangeFault → List String
  | .compile cause => cause.causes
  | .repository _ => []

end ChangeFault

/-- Why an operation on the catalog failed. -/
inductive CatalogError where
  | invalidName (name : String)
  | notStored (change : Change) (kind : EntryKind) (name : String) (cause : ChangeFault)
  | missing (kind : EntryKind) (name : String)
  | unreadable (name : String) (cause : RepositoryError)
  | unresolved (name : String) (cause : ExecutionError)
  | repository (cause : RepositoryError)
  deriving Repr

namespace CatalogError

/-- The message of a failed operation on the catalog. -/
def message : CatalogError → String
  | .invalidName name => s!"Name [{name}] is invalid"
  | .notStored change kind name _ => s!"Failed to {change.text} the {kind.text} [{name}]"
  | .missing kind name => s!"The {kind.text} [{name}] does not exist in the repository"
  | .unreadable name _ => s!"Failed to read [{name}] from the repository"
  | .unresolved name _ => s!"Failed to resolve [{name}]"
  | .repository cause => cause.message

/-- The messages of the failures underneath, the nearest first. -/
def causes : CatalogError → List String
  | .notStored _ _ _ cause => cause.message :: cause.causes
  | .unreadable _ cause => [cause.message]
  | .unresolved _ cause => cause.message :: cause.causes
  | _ => []

end CatalogError

/-- Why the work of a transaction failed. -/
inductive StoreFault where
  | repository (cause : RepositoryError)
  /-- There was nothing to replace or delete. -/
  | missing
  deriving DecidableEq, Repr

namespace Catalog

section Storing

variable {σ : Type} [CodeRepository σ]

/-- Saves units one after the other until one is refused. -/
def saveAll : List CompiledUnit → Work σ StoreFault Unit
  | [], s => (.ok (), s)
  | u :: rest, s =>
    match CodeRepository.call (.save u.name u.payload u.source) s with
    | (.error cause, s) => (.error (.repository cause), s)
    | (.ok (), s) => saveAll rest s

/-- Deletes a unit and the expressions it owns. -/
def delete (package : Package) : Work σ StoreFault Nat := fun s =>
  match CodeRepository.call (.deleteUnder package) s with
  | (.error cause, s) => (.error (.repository cause), s)
  | (.ok 0, s) => (.error .missing, s)
  | (.ok (n + 1), s) => (.ok (n + 1), s)

/-- Saves units in place of those of a package. -/
def replace (package : Package) (units : List CompiledUnit) : Work σ StoreFault Unit := fun s =>
  match delete package s with
  | (.error cause, s) => (.error cause, s)
  | (.ok _, s) => saveAll units s

/-- Saves the units of an entry under a name, in place of the ones it has when it is
updated. -/
def store (change : Change) (name : QualifiedName) (units : List CompiledUnit) :
    Work σ StoreFault Unit :=
  match change with
  | .create => saveAll units
  | .update => replace name.package units

end Storing

/-- The name of the unit of an entry, when no part of it is empty. -/
def checkedName (kind : EntryKind) (name : String) : Except CatalogError QualifiedName :=
  let unit := kind.unitName name
  if unit.isWellFormed then .ok unit else .error (.invalidName name)

/-- The error of an entry that was not stored because of what happened in the transaction. -/
def storeError (change : Change) (kind : EntryKind) (name : String) : StoreFault → CatalogError
  | .repository cause => .notStored change kind name (.repository cause)
  | .missing => .missing kind name

/-- The error of an entry that was not deleted. -/
def deleteError (kind : EntryKind) (name : String) : StoreFault → CatalogError
  | .repository cause => .repository cause
  | .missing => .missing kind name

variable {σ : Type} [CodeRepository σ]

/-- Does work on the repository in a transaction, and reloads when it succeeded. -/
def commit {α : Type} (work : Work σ StoreFault α) (e : Engine σ) :
    Except StoreFault α × Engine σ :=
  let (outcome, repository) := Transaction.run .repository work e.cache.repository
  let e := { e with cache := { e.cache with repository } }
  match outcome with
  | .error cause => (.error cause, e)
  | .ok a => (.ok a, e.reload)

/-- Compiles and stores an entry. `compile` yields a result for the caller and the units. -/
def put {α : Type} (change : Change) (kind : EntryKind) (name : String)
    (compile : QualifiedName → Inquiry (Except CompileError (α × List CompiledUnit)))
    (e : Engine σ) : Except CatalogError α × Engine σ :=
  match checkedName kind name with
  | .error cause => (.error cause, e)
  | .ok unit =>
    match e.inquire (compile unit) with
    | (.error cause, e) => (.error (.notStored change kind name (.compile cause)), e)
    | (.ok (result, units), e) =>
      match commit (store change unit units) e with
      | (.error cause, e) => (.error (storeError change kind name cause), e)
      | (.ok (), e) => (.ok result, e)

/-- The inputs and the units of a script. -/
def compileScript (body : String) (unit : QualifiedName) :
    Inquiry (Except CompileError (InputManifest × List CompiledUnit)) := do
  let compiled ← Compile.script unit body
  return compiled.map fun c => (c.inputs, c.units)

/-- The unit of a record type. -/
def compileRecord (spec : String) (unit : QualifiedName) :
    Inquiry (Except CompileError (Unit × List CompiledUnit)) := do
  let compiled ← Compile.recordType unit spec
  return compiled.map fun u => ((), [u])

/-- Stores a script, new or in place of the one with that name, and yields its inputs. -/
def putScript (change : Change) (name body : String) (e : Engine σ) :
    Except CatalogError InputManifest × Engine σ :=
  put change .script name (compileScript body) e

/-- Stores a record type, new or in place of the one with that name. -/
def putRecord (change : Change) (name spec : String) (e : Engine σ) :
    Except CatalogError Unit × Engine σ :=
  put change .recordType name (compileRecord spec) e

/-- Deletes a script and counts the units that it had. -/
def deleteScript (name : String) (e : Engine σ) : Except CatalogError Nat × Engine σ :=
  match checkedName .script name with
  | .error cause => (.error cause, e)
  | .ok unit =>
    match commit (delete unit.package) e with
    | (.error cause, e) => (.error (deleteError .script name cause), e)
    | (.ok deleted, e) => (.ok deleted, e)

/-- The source text that is stored for an entry. -/
def source (kind : EntryKind) (name : String) (e : Engine σ) :
    Except CatalogError (Option String) × Engine σ :=
  let (answer, repository) := CodeRepository.call (.source (kind.unitName name)) e.cache.repository
  (answer.mapError (.unreadable name), { e with cache := { e.cache with repository } })

/-- The inputs of a stored script. -/
def scriptInputs (name : String) (e : Engine σ) :
    Except CatalogError InputManifest × Engine σ :=
  match e.getExecutable (EntryKind.script.unitName name) none with
  | (.error cause, e) => (.error (.unresolved name cause), e)
  | (.ok u, e) =>
    match u.body.script? with
    | some program => (.ok program.inputs, e)
    | none => (.error (.missing .script name), e)

end Catalog

end Scriptorium

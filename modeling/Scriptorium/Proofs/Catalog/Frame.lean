import Scriptorium.Proofs.Catalog.Storing
import Scriptorium.Proofs.Unit.Loading

/-!
# What operations on the catalog leave alone

An operation that replaces or deletes an entry takes away all that the entry's
package covers. That is more than the entry owns when the group levels of
another entry begin with the segments of the package: such an entry is deleted
as well. Every other entry stays as it was.
-/

namespace Scriptorium.Catalog

/-- The entry that an operation replaces or deletes. -/
def Operation.revised : Operation → Option (EntryKind × String)
  | .putScript .update name _ => some (.script, name)
  | .putRecord .update name _ => some (.recordType, name)
  | .deleteScript name => some (.script, name)
  | _ => none

/-- The name of an entry's unit is told by its package. -/
theorem unitName_eq_of_package {kind : EntryKind} {first second : String}
    (h : (kind.unitName first).package = (kind.unitName second).package) :
    kind.unitName first = kind.unitName second := by
  have hroot := congrArg Package.root h
  have hpath := congrArg Package.path h
  cases kind <;> exact QualifiedName.mk.injEq .. ▸ ⟨hroot, hpath, rfl⟩

variable {e e' : Engine MemoryRepository}

/-- An operation that replaces or deletes an entry stores units of the entry's package, if any,
besides what the package does not cover. -/
theorem Operation.perform_saved {op : Operation} {kind : EntryKind} {name : String}
    (hop : op.revised = some (kind, name)) (h : op.perform e = (.ok (), e')) :
    ∃ us, (∀ u ∈ us, u.name.package = (kind.unitName name).package) ∧
      Saved us (Change.update.remaining (kind.unitName name).package e.cache.repository.entries)
        e'.cache.repository.entries := by
  cases op with
  | putScript change script body =>
    cases change <;> cases hop
    obtain ⟨inputs, hput⟩ := report_ok h
    obtain ⟨us, hcompile, hsaved⟩ := put_saved hput
    obtain ⟨c, hscript, -, rfl⟩ := compileScript_eq_ok hcompile
    exact ⟨c.units, fun u hu => package_of_mem_units hscript hu, hsaved⟩
  | putRecord change record spec =>
    cases change <;> cases hop
    obtain ⟨_, hput⟩ := report_ok h
    obtain ⟨us, hcompile, hsaved⟩ := put_saved hput
    obtain ⟨u, hrecord, rfl⟩ := compileRecord_eq_ok hcompile
    obtain ⟨defined, -, rfl⟩ := Compile.recordType_eq_ok hrecord
    refine ⟨_, fun u hu => ?_, hsaved⟩
    obtain rfl := List.mem_singleton.mp hu
    rfl
  | deleteScript script =>
    cases hop
    obtain ⟨n, hdelete⟩ := report_ok h
    refine ⟨[], nofun, nofun, nofun, fun other _ => ?_⟩
    rw [(deleteScript_ok hdelete).2]
    rfl

/-- Replacing or deleting an entry leaves every unit of another entry as it was, unless the
other's segments begin with all of the first one's: then the unit is deleted. -/
theorem Operation.perform_frame {op : Operation} {kind : EntryKind} {first second : String}
    (hop : op.revised = some (kind, first)) (h : op.perform e = (.ok (), e'))
    (hne : kind.unitName first ≠ kind.unitName second) {unit : QualifiedName}
    (hunit : unit.package = (kind.unitName second).package) :
    e'.cache.repository.entries.get? unit = e.cache.repository.entries.get? unit ∨
      (kind.unitName first).path <+: (kind.unitName second).path ∧
        e'.cache.repository.entries.get? unit = none := by
  obtain ⟨us, hpackage, hsaved⟩ := perform_saved hop h
  have hother : ∀ u ∈ us, u.name ≠ unit := by
    rintro u hu rfl
    exact hne (unitName_eq_of_package ((hpackage u hu).symm.trans hunit))
  rw [hsaved.others unit hother, Change.remaining, Dictionary.get?_filterKeys]
  cases hcovers : (kind.unitName first).package.covers unit with
  | false => exact .inl rfl
  | true =>
    have hpath : unit.path = (kind.unitName second).path := congrArg Package.path hunit
    simp only [Package.covers, Bool.and_eq_true, List.isPrefixOf_iff_prefix] at hcovers
    refine .inr ⟨?_, rfl⟩
    have hbegins := hcovers.2
    rwa [hpath] at hbegins

/-- A catalog with a script called "order" and another one. -/
def orderAnd (second : String) : Engine MemoryRepository :=
  let e := ((Operation.putScript .create "order" Compile.assigning).perform (.ofRepository .empty 0)).2
  ((Operation.putScript .create second Compile.assigning).perform e).2

theorem Operation.perform_frame_order :
    ∃ e', (Operation.putScript .update "order" Compile.assigning).perform (orderAnd "line") =
        (.ok (), e') ∧
      EntryKind.script.unitName "order" ≠ EntryKind.script.unitName "line" ∧
      (e'.cache.repository.entries.get? (.script "line") =
          (orderAnd "line").cache.repository.entries.get? (.script "line") ∨
        (EntryKind.script.unitName "order").path <+: (EntryKind.script.unitName "line").path ∧
          e'.cache.repository.entries.get? (.script "line") = none) := by
  have hok : ((Operation.putScript .update "order" Compile.assigning).perform
      (orderAnd "line")).1.toOption.isSome = true := by decide +kernel
  have hne : EntryKind.script.unitName "order" ≠ EntryKind.script.unitName "line" := by decide
  cases hperform : (Operation.putScript .update "order" Compile.assigning).perform (orderAnd "line") with
  | mk outcome e' =>
    rw [hperform] at hok
    cases outcome with
    | error cause => cases hok
    | ok => exact ⟨e', rfl, hne, perform_frame rfl hperform hne rfl⟩

/-- An update of a script deletes another one whose group is named like the script. -/
theorem Operation.perform_deletes_nested :
    QualifiedName.script "order" ≠ .script "default_group::order::order::line" ∧
    ((Operation.putScript .update "order" Compile.assigning).perform
      (orderAnd "default_group::order::order::line")).1.toOption.isSome = true ∧
    (orderAnd "default_group::order::order::line").cache.repository.entries.contains
      (.script "default_group::order::order::line") = true ∧
    ((Operation.putScript .update "order" Compile.assigning).perform
      (orderAnd "default_group::order::order::line")).2.cache.repository.entries.contains
      (.script "default_group::order::order::line") = false := by
  refine ⟨by decide, ?_, ?_, ?_⟩ <;> decide +kernel

end Scriptorium.Catalog

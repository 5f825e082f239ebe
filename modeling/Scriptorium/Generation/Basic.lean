import Scriptorium.Dictionary
import Scriptorium.Repository.Basic
import Scriptorium.Unit.Body

/-!
# Generations of loaded units

A ready unit is the content of a payload that has been read. Reading a payload
twice gives two units, told apart by their serial numbers. A generation gathers
ready units by name: units are only added to it, and the first one of a name
stays.
-/

namespace Scriptorium

/-- A unit ready for use. -/
structure ReadyUnit where
  name : QualifiedName
  body : UnitBody
  /-- No two units made ready by one cache have the same serial number. -/
  serial : Nat
  deriving Repr

/-- The units loaded since one reload. -/
structure Generation where
  /-- The number of the generation among those of its cache. It grows without bound: a counter of 64
  bits is taken not to overflow. -/
  id : Nat
  /-- The version of the repository that was read before the generation was published. -/
  version : Option VersionToken
  units : Dictionary QualifiedName ReadyUnit

namespace Generation

/-- A generation without units. -/
def fresh (id : Nat) (version : Option VersionToken) : Generation := ⟨id, version, ∅⟩

/-- The unit that the generation holds under the name. -/
def cached? (g : Generation) (name : QualifiedName) : Option ReadyUnit := g.units.get? name

/-- The names of the units that the generation holds, in ascending order. -/
def names (g : Generation) : List QualifiedName := g.units.keys

/-- The number of units that the generation holds. -/
def size (g : Generation) : Nat := g.units.size

/-- The generation with one more unit, unless it holds one of that name. -/
def add (g : Generation) (u : ReadyUnit) : Generation :=
  { g with units := g.units.insertNew u.name u }

end Generation

end Scriptorium

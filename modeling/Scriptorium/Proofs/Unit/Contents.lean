import Scriptorium.Proofs.Name.Segments
import Scriptorium.Unit.Encode

/-!
# What unit bodies contain

A body contains qualified names, decimals and element numbers, however deeply
they are nested in values, trees and branches. A stored body names record types
and units by their texts, so it can be restored only where each of its names is
read back from its text.
-/

namespace Scriptorium

namespace QualifiedName

/-- The text of the name is read back as the name. -/
def ParsesBack (n : QualifiedName) : Prop := parse? n.text = some n

instance (n : QualifiedName) : Decidable n.ParsesBack :=
  inferInstanceAs (Decidable (parse? n.text = some n))

theorem ParsesBack.readable {n : QualifiedName} (h : n.ParsesBack) : n.Readable :=
  fun _ hm => Option.some.inj (hm.symm.trans h)

theorem Plain.parsesBack {n : QualifiedName} (h : n.Plain) (hwell : n.isWellFormed = true) :
    n.ParsesBack := by
  rw [ParsesBack, parse?_text h, if_pos hwell]

end QualifiedName

namespace Value

mutual

/-- The value and everything in it. -/
def parts : Value → List Value
  | .array items => .array items :: partsItems items
  | .record type fields => .record type fields :: partsFields fields
  | v => [v]

/-- Several values and everything in them. -/
def partsItems : List Value → List Value
  | [] => []
  | v :: vs => parts v ++ partsItems vs

/-- The values of several fields and everything in them. -/
def partsFields : List (String × Value) → List Value
  | [] => []
  | (_, v) :: rest => parts v ++ partsFields rest

end

/-- The name of the record type, if the value is a record. -/
def typeName? : Value → Option QualifiedName
  | .record type _ => some type
  | _ => none

/-- The decimal, if the value is one. -/
def decimal? : Value → Option Decimal
  | .decimal d => some d
  | _ => none

/-- The fields, if the value is a record, are in the order of their names, each there once. -/
def Ordered : Value → Prop
  | .record _ fields => Entries.Sorted fields
  | _ => True

instance (v : Value) : Decidable v.Ordered :=
  match v with
  | .record _ fields =>
    inferInstanceAs (Decidable (fields.Pairwise fun a b => compare a.1 b.1 = .lt))
  | .null | .integer _ | .decimal _ | .boolean _ | .string _ | .array _ => isTrue trivial

end Value

/-- The number of the element, if the step is to one, is a word. -/
def Step.IsWord : Step → Prop
  | .field _ => True
  | .index n => n < Json.wordBound

instance (s : Step) : Decidable s.IsWord :=
  match s with
  | .field _ => isTrue trivial
  | .index n => inferInstanceAs (Decidable (n < Json.wordBound))

namespace Node

/-- The literals and everything in them. -/
def values : Node → List Value
  | .literal v => v.parts
  | .binary _ lhs rhs => lhs.values ++ rhs.values
  | _ => []

/-- What is read and referred to. -/
def accesses : Node → List Access
  | .read access _ | .reference access => [access]
  | .binary _ lhs rhs => lhs.accesses ++ rhs.accesses
  | _ => []

end Node

/-- The name of the record type, if the type is one of records. -/
def SemanticType.names : SemanticType → List QualifiedName
  | .record name => [name]
  | _ => []

theorem SemanticType.plain_ofTypeName (name : String) :
    ∀ n ∈ (SemanticType.ofTypeName name).names, n.Plain := by
  unfold SemanticType.ofTypeName
  split <;> first
    | exact List.forall_mem_nil _
    | exact List.forall_mem_singleton.mpr (QualifiedName.plain_record _)

/-- The names of the units on either side. -/
def Condition.names (c : Condition) : List QualifiedName := [c.left.name, c.right.name]

mutual

/-- The names of record types and units in an instruction. -/
def Instruction.names : Instruction → List QualifiedName
  | .declareInput _ type => type.names
  | .declareLocal _ type init => type.names ++ init.toList.map (·.name)
  | .setLocal _ value => [value.name]
  | .branch condition thenBranch elseBranch =>
    condition.names ++ Instruction.namesItems thenBranch ++ Instruction.namesItems elseBranch

/-- The names in several instructions. -/
def Instruction.namesItems : List Instruction → List QualifiedName
  | [] => []
  | i :: rest => i.names ++ Instruction.namesItems rest

end

namespace UnitBody

/-- The literals of an expression and everything in them. -/
def values : UnitBody → List Value
  | .expression e => e.root.values
  | _ => []

/-- All decimals of a body. -/
def decimals (body : UnitBody) : List Decimal := body.values.filterMap Value.decimal?

/-- All qualified names of a body. -/
def names : UnitBody → List QualifiedName
  | .expression e => e.root.values.filterMap Value.typeName?
  | .script p => p.inputs.flatMap (·.type.names) ++ Instruction.namesItems p.statements
  | .record t => t.name :: t.fields.flatMap (·.type.names)

/-- A body as memory holds it: the fields of every record are in the order of their names, and
the numbers of elements are words. -/
def Proper : UnitBody → Prop
  | .expression e =>
    (∀ v ∈ e.root.values, v.Ordered) ∧ ∀ a ∈ e.root.accesses, ∀ s ∈ a.steps, s.IsWord
  | _ => True

instance (body : UnitBody) : Decidable body.Proper :=
  match body with
  | .expression e => inferInstanceAs (Decidable ((∀ v ∈ e.root.values, v.Ordered) ∧
      ∀ a ∈ e.root.accesses, ∀ s ∈ a.steps, s.IsWord))
  | .script _ | .record _ => isTrue trivial

end UnitBody

end Scriptorium

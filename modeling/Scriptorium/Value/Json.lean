import Scriptorium.Json.Reader
import Scriptorium.Value.Basic

/-!
# Values as JSON

Input values arrive as JSON and reports show values as JSON. An object carries
no record type, so it cannot be bound to a variable; a report shows a record as
an object. Documents nested more deeply than the limit are refused.
-/

namespace Scriptorium

/-- Documents nested more deeply than this are refused. -/
def Json.depthLimit : Nat := 127

namespace Value

/-- The value that a numeral denotes: an integer when it fits, otherwise a decimal. -/
def ofNumber : Json.Number → Value
  | .natural n =>
    match Integer.ofInt? n with
    | some w => .integer w
    | none => .decimal (Decimal.ofInt n)
  | .negative w => .integer w
  | .decimal d => .decimal d

mutual

/-- Every numeral and every string of a document denotes something. -/
def isMeaningful : Json → Bool
  | .number numeral => (Json.number? numeral).isSome
  | .string escaped => (Json.unescape? escaped).isSome
  | .array items => areMeaningful items
  | .object members => areMeaningfulMembers members
  | _ => true

/-- Every one of several documents is meaningful. -/
def areMeaningful : List Json → Bool
  | [] => true
  | j :: js => isMeaningful j && areMeaningful js

/-- Every member of an object is meaningful, its name included. -/
def areMeaningfulMembers : List (List Char × Json) → Bool
  | [] => true
  | (key, j) :: rest =>
    (Json.unescape? key).isSome && isMeaningful j && areMeaningfulMembers rest

end

mutual

/-- The value that a document stands for. An object stands for none. -/
def ofJson? : Json → Option Value
  | .null => some .null
  | .boolean b => some (.boolean b)
  | .number numeral => (Json.number? numeral).map ofNumber
  | .string escaped => (Json.unescape? escaped).map fun cs => .string (String.ofList cs)
  | .array items => (ofItems? items).map .array
  | .object _ => none

/-- The values that several documents stand for. -/
def ofItems? : List Json → Option (List Value)
  | [] => some []
  | j :: js => do return (← ofJson? j) :: (← ofItems? js)

end

/-- The document that a text denotes, when it can be used as input. -/
def inputDocument? (cs : List Char) : Option Json :=
  (Json.read? cs).filter fun j => decide (j.depth ≤ Json.depthLimit) && isMeaningful j

mutual

/-- The document that shows a value in a report. -/
def toJson : Value → Json
  | .null => .null
  | .integer n => Json.ofInt64 n
  | .decimal d => Json.ofDecimal d
  | .boolean b => .boolean b
  | .string s => Json.ofText s
  | .array items => .array (itemsToJson items)
  | .record _ fields => .object (fieldsToJson fields)

/-- The documents that show several values. -/
def itemsToJson : List Value → List Json
  | [] => []
  | v :: vs => toJson v :: itemsToJson vs

/-- The members that show the fields of a record. -/
def fieldsToJson : List (String × Value) → List (List Char × Json)
  | [] => []
  | (name, v) :: rest => (Json.escape name.toList, toJson v) :: fieldsToJson rest

end

end Value

end Scriptorium

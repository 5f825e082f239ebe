import Scriptorium.Decimal.Text
import Scriptorium.Dictionary
import Scriptorium.Value.Integer
import Scriptorium.Value.Kind

/-!
# Values

What a variable holds at run time. Null is also the value of a variable or
field to which nothing has been assigned. A record carries the name of its type
and its fields in the order of their names.

Coercion takes a value into a type in the way values are bound to variables:
numbers and truth values may come as text, an integer widens to a decimal,
everything simple turns into text, and null belongs to every type.
-/

namespace Scriptorium

/-- A value held by a variable. -/
inductive Value where
  | null
  | integer (n : Int64)
  | decimal (d : Decimal)
  | boolean (b : Bool)
  | string (s : String)
  | array (items : List Value)
  | record (type : QualifiedName) (fields : List (String × Value))
  deriving Repr, Inhabited

/-- A value that does not belong to a type. -/
structure CoercionError where
  value : String
  type : String
  deriving DecidableEq, Repr

/-- The message of a failed coercion. -/
def CoercionError.message (e : CoercionError) : String :=
  s!"[{e.value}] is not a value of type {e.type}"

namespace Value

/-- The value is null. -/
def isNull : Value → Bool
  | .null => true
  | _ => false

mutual

/-- The text of a value as messages show it. -/
def text : Value → String
  | .null => "null"
  | .integer n => String.ofList (Integer.numeral n)
  | .decimal d => toString d
  | .boolean b => if b then "true" else "false"
  | .string s => s
  | .array items => "[" ++ itemsText items ++ "]"
  | .record type fields => type.humanName ++ "\x7b" ++ fieldsText fields ++ "\x7d"

/-- The texts of several values, separated by commas. -/
def itemsText : List Value → String
  | [] => ""
  | [v] => text v
  | v :: vs => text v ++ ", " ++ itemsText vs

/-- The fields of a record with their values, separated by commas. -/
def fieldsText : List (String × Value) → String
  | [] => ""
  | [(name, v)] => name ++ "=" ++ text v
  | (name, v) :: rest => name ++ "=" ++ text v ++ ", " ++ fieldsText rest

end

instance : ToString Value := ⟨text⟩

mutual

/-- Equality as conditions see it within one type: decimals compare as numbers. -/
def same : Value → Value → Bool
  | .null, .null => true
  | .integer a, .integer b => a = b
  | .decimal a, .decimal b => a.same b
  | .boolean a, .boolean b => a = b
  | .string a, .string b => a = b
  | .array as, .array bs => sameItems as bs
  | .record s fs, .record t gs => s = t && sameFields fs gs
  | _, _ => false

/-- Equally many values, equal in pairs. -/
def sameItems : List Value → List Value → Bool
  | [], [] => true
  | a :: as, b :: bs => same a b && sameItems as bs
  | _, _ => false

/-- The same fields with equal values. -/
def sameFields : List (String × Value) → List (String × Value) → Bool
  | [], [] => true
  | (s, a) :: as, (t, b) :: bs => s = t && same a b && sameFields as bs
  | _, _ => false

end

/-- The decimal that a text denotes, when it is a decimal or integer numeral. -/
def readDecimal? (cs : List Char) : Option Decimal :=
  if Text.isDecimal cs || Text.isInteger cs then Decimal.read? cs else none

end Value

namespace SemanticType

/-- The value of this type that `v` stands for, when it stands for one. -/
def coerce? : SemanticType → Value → Option Value
  | _, .null => some .null
  | .primitive .integer, .integer n => some (.integer n)
  | .primitive .integer, .string s =>
    (Integer.read? (Text.trim s.toList)).map Value.integer
  | .primitive .decimal, .decimal d => some (.decimal d)
  | .primitive .decimal, .integer n => some (.decimal (Decimal.ofInt n.toInt))
  | .primitive .decimal, .string s =>
    (Value.readDecimal? (Text.trim s.toList)).map Value.decimal
  | .primitive .boolean, .boolean b => some (.boolean b)
  | .primitive .boolean, .string s =>
    if s = "true" then some (.boolean true)
    else if s = "false" then some (.boolean false)
    else none
  | .primitive .string, .string s => some (.string s)
  | .primitive .string, .integer n => some (.string (Value.integer n).text)
  | .primitive .string, .decimal d => some (.string (Value.decimal d).text)
  | .primitive .string, .boolean b => some (.string (Value.boolean b).text)
  | .array, .array items => some (.array items)
  | .record expected, .record type fields =>
    if type = expected then some (.record type fields) else none
  | _, _ => none

/-- Coercion with the value and the type named on failure. -/
def coerce (t : SemanticType) (v : Value) : Except CoercionError Value :=
  match t.coerce? v with
  | some w => .ok w
  | none => .error ⟨v.text, t.text⟩

end SemanticType

end Scriptorium

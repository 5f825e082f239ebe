import Scriptorium.Value.Basic

/-!
# Comparing values

Numbers are compared by their numeric values, an integer as the nearest
decimal where the other side is a decimal. Otherwise values are equal when they
are the same, and only strings are ordered, by their code points.
-/

namespace Scriptorium.Value

/-- The values are equal, where an integer and a decimal may be equal as numbers. -/
def equal : Value → Value → Bool
  | .integer a, .decimal b => (Decimal.ofInt a.toInt).same b
  | .decimal a, .integer b => a.same (Decimal.ofInt b.toInt)
  | a, b => a.same b

/-- The order of two numbers or two strings. -/
def compare? : Value → Value → Option Ordering
  | .integer a, .integer b => some (compare a.toInt b.toInt)
  | .decimal a, .decimal b => a.compare? b
  | .integer a, .decimal b => (Decimal.ofInt a.toInt).compare? b
  | .decimal a, .integer b => a.compare? (Decimal.ofInt b.toInt)
  | .string a, .string b => some (compare a b)
  | _, _ => none

end Scriptorium.Value

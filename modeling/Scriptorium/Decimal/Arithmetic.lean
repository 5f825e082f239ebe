import Scriptorium.Decimal.Basic

/-!
# Decimal arithmetic

Each operation is the exact result on the operands' values, rounded once. A sum
that is exactly zero is negative only when both terms are negative zeros.
-/

namespace Scriptorium.Decimal

/-- The number with the opposite sign. -/
def neg : Decimal → Decimal
  | .nan => .nan
  | .infinite negative => .infinite (!negative)
  | .finite negative rank => .finite (!negative) rank

/-- The significand as an integer with the number's sign. -/
def signedSignificand (negative : Bool) (rank : Nat) : Int :=
  if negative then -(significand rank : Int) else significand rank

/-- The sum of two numbers. -/
def add : Decimal → Decimal → Decimal
  | .nan, _ => .nan
  | _, .nan => .nan
  | .infinite n, .infinite m => if n = m then .infinite n else .nan
  | .infinite n, .finite _ _ => .infinite n
  | .finite _ _, .infinite m => .infinite m
  | .finite n r, .finite m s =>
    let e := min (exponent r) (exponent s)
    let sum := signedSignificand n r * Nat.pow 2 (exponent r - e).toNat +
      signedSignificand m s * Nat.pow 2 (exponent s - e).toNat
    if sum = 0 then zero (n && m) else ofScaled (sum < 0) sum.natAbs e

/-- The difference of two numbers. -/
def sub (a b : Decimal) : Decimal := add a b.neg

/-- The product of two numbers. -/
def mul : Decimal → Decimal → Decimal
  | .nan, _ => .nan
  | _, .nan => .nan
  | .infinite n, .infinite m => .infinite (n != m)
  | .infinite n, .finite m s => if s.val = 0 then .nan else .infinite (n != m)
  | .finite n r, .infinite m => if r.val = 0 then .nan else .infinite (n != m)
  | .finite n r, .finite m s =>
    ofScaled (n != m) (significand r * significand s) (exponent r + exponent s)

/-- The quotient of two numbers. -/
def div : Decimal → Decimal → Decimal
  | .nan, _ => .nan
  | _, .nan => .nan
  | .infinite _, .infinite _ => .nan
  | .infinite n, .finite m _ => .infinite (n != m)
  | .finite n _, .infinite m => zero (n != m)
  | .finite n r, .finite m s =>
    if s.val = 0 then
      if r.val = 0 then .nan else .infinite (n != m)
    else
      let e := exponent r - exponent s
      ofRatio (n != m) (significand r * Nat.pow 2 e.toNat) (significand s * Nat.pow 2 (-e).toNat)

end Scriptorium.Decimal

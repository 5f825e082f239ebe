/-!
# Decimals

A decimal is a binary floating point number of 64 bits with one value that is
not a number. The nonnegative finite ones are numbered in increasing order by
their rank, so comparing two magnitudes compares their ranks. The first
`2 ^ 52` ranks count the multiples of `2 ^ (-1074)`; every later binade holds
`2 ^ 52` ranks more, at twice the spacing of the one before it.

`ofRatio` rounds a nonnegative rational to the nearest decimal, a tie to the
even significand, and to infinity from the rank bound on. A significand that
is rounded up to `2 ^ 53` lands on the first rank of the next binade.
-/

namespace Scriptorium

/-- The number of ranks in one binade. -/
def Decimal.binade : Nat := Nat.pow 2 52

/-- The ranks of finite magnitudes lie below this bound. -/
def Decimal.rankBound : Nat := 2047 * Decimal.binade

/-- A 64-bit binary floating point number. -/
inductive Decimal where
  | nan
  | infinite (negative : Bool)
  | finite (negative : Bool) (rank : Fin Decimal.rankBound)
  deriving DecidableEq, Repr

namespace Decimal

/-- The significand of the magnitude with this rank. -/
def significand (rank : Nat) : Nat :=
  if rank < binade then rank else binade + rank % binade

/-- The power of two that multiplies the significand of this rank. -/
def exponent (rank : Nat) : Int :=
  if rank < binade then -1074 else (rank / binade : Nat) - 1075

/-- The decimal with this sign and rank, infinite when the rank is out of bounds. -/
def ofRank (negative : Bool) (rank : Nat) : Decimal :=
  if h : rank < rankBound then .finite negative ⟨rank, h⟩ else .infinite negative

/-- Zero with a sign. -/
def zero (negative : Bool) : Decimal := ofRank negative 0

/-- The quotient rounded to the nearest integer, a tie to the even one. -/
def roundDiv (num den : Nat) : Nat :=
  let q := num / den
  let r := num % den
  if 2 * r < den then q
  else if 2 * r = den then q + q % 2
  else q + 1

/-- Numerator and denominator of `num / den` in units of `2 ^ e`. -/
def scaleRatio (num den : Nat) (e : Int) : Nat × Nat :=
  (num * Nat.pow 2 (-e).toNat, den * Nat.pow 2 e.toNat)

/-- The spacing exponent for `num / den`: the largest one that leaves at least 53
binary digits before the point, but not less than that of the smallest magnitudes. -/
def spacing (num den : Nat) : Int :=
  let e : Int := (Nat.log2 num : Int) - Nat.log2 den - 52
  let (n, d) := scaleRatio num den e
  max (-1074) (if n / d < binade then e - 1 else e)

/-- The rank of the decimal magnitude nearest to `num / den`. -/
def rankOfRatio (num den : Nat) : Nat :=
  if num = 0 then 0
  else
    let e := spacing num den
    let (n, d) := scaleRatio num den e
    (e + 1074).toNat * binade + roundDiv n d

/-- The decimal nearest to `num / den`, with a sign. -/
def ofRatio (negative : Bool) (num den : Nat) : Decimal :=
  ofRank negative (rankOfRatio num den)

/-- The decimal nearest to `significand * 2 ^ exponent`, with a sign. -/
def ofScaled (negative : Bool) (significand : Nat) (exponent : Int) : Decimal :=
  ofRatio negative (significand * Nat.pow 2 exponent.toNat) (Nat.pow 2 (-exponent).toNat)

/-- The decimal nearest to `digits * 10 ^ exponent`, with a sign. -/
def ofDigits (negative : Bool) (digits : Nat) (exponent : Int) : Decimal :=
  let size : Int := (Nat.toDigits 10 digits).length + exponent
  if digits = 0 || size < -330 then zero negative
  else if size > 330 then .infinite negative
  else ofRatio negative (digits * Nat.pow 10 exponent.toNat) (Nat.pow 10 (-exponent).toNat)

/-- The decimal nearest to an integer. -/
def ofInt (n : Int) : Decimal := ofRatio (n < 0) n.natAbs 1

/-- Neither infinite nor the value that is not a number. -/
def isFinite : Decimal → Bool
  | .finite _ _ => true
  | _ => false

/-- The sign bit. -/
def isNegative : Decimal → Bool
  | .nan => false
  | .infinite negative => negative
  | .finite negative _ => negative

/-- The place of a number in the order of all decimals. Both zeros have place zero. -/
def place? : Decimal → Option Int
  | .nan => none
  | .infinite negative => some (if negative then -rankBound else rankBound)
  | .finite negative rank => some (if negative then -(rank.val : Int) else rank.val)

/-- The order of two numbers, none when one of them is not a number. -/
def compare? (a b : Decimal) : Option Ordering := do
  let x ← a.place?
  let y ← b.place?
  return compare x y

/-- Equality of numbers: the zeros are equal, and what is not a number equals nothing. -/
def same (a b : Decimal) : Bool := a.compare? b == some .eq

/-- The number is a zero of either sign. -/
def isZero (a : Decimal) : Bool := a.place? == some 0

theorem ofRank_ne_nan (negative : Bool) (rank : Nat) : ofRank negative rank ≠ .nan := by
  unfold ofRank; split <;> simp

/-- Rounding a rational never yields the value that is not a number. -/
theorem ofRatio_ne_nan (negative : Bool) (num den : Nat) : ofRatio negative num den ≠ .nan :=
  ofRank_ne_nan _ _

theorem ofInt_ne_nan (n : Int) : ofInt n ≠ .nan := ofRatio_ne_nan _ _ _

theorem ofDigits_ne_nan (negative : Bool) (digits : Nat) (exponent : Int) :
    ofDigits negative digits exponent ≠ .nan := by
  unfold ofDigits
  dsimp only
  split
  · exact ofRank_ne_nan _ _
  · split
    · simp
    · exact ofRatio_ne_nan _ _ _

end Decimal

end Scriptorium

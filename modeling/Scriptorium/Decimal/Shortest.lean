import Scriptorium.Decimal.Basic

/-!
# Shortest digits

The magnitude of a finite decimal is written with the fewest decimal digits
that round back to it; of several such numerals the nearest to the magnitude is
taken, and of two that are equally near the one that a tie rule names. For each
digit count only the two neighbours of the magnitude on the grid of numerals
with that many digits can qualify.
-/

namespace Scriptorium.Decimal

/-- A numeral `0.d₁d₂… * 10 ^ point`. -/
structure Numeral where
  digits : List Char
  point : Int
  deriving DecidableEq, Repr

/-- Which of two numerals is taken when both are equally near. -/
inductive Tie where
  /-- The larger one. -/
  | up
  /-- The one whose last digit is even. -/
  | even
  deriving DecidableEq, Repr

/-- The larger neighbour is taken where it is nearer than `low` or a tie goes to it. -/
def Tie.takesHigh (t : Tie) (low remainder den : Nat) : Bool :=
  match t with
  | .up => 2 * remainder ≥ den
  | .even => 2 * remainder > den || 2 * remainder == den && low % 2 == 1

/-- The ratio rounds to the magnitude of this rank. -/
def roundsTo (rank num den : Nat) : Bool := rankOfRatio num den == rank

/-- The exponent `k` with `10 ^ (k - 1) ≤ num / den < 10 ^ k`, for the sizes that occur. -/
def decimalPoint (num den : Nat) : Int :=
  (Nat.toDigits 10 (num * Nat.pow 10 400 / den)).length - 400

/-- The better of the two neighbours of `num / den` on the grid of numerals with `count`
digits, if one of them rounds to the rank. -/
def candidate? (tie : Tie) (rank num den : Nat) (point : Int) (count : Nat) : Option Nat :=
  let shift := (count : Int) - point
  let up := num * Nat.pow 10 shift.toNat
  let down := den * Nat.pow 10 (-shift).toNat
  let low := up / down
  let fits := fun d => roundsTo rank (d * Nat.pow 10 (-shift).toNat) (Nat.pow 10 shift.toNat)
  if fits low then
    if tie.takesHigh low (up % down) down && fits (low + 1) then some (low + 1) else some low
  else if fits (low + 1) then some (low + 1)
  else none

/-- The first candidate among numerals with `count` digits and more. Seventeen digits tell
all decimals apart. -/
def search (tie : Tie) (rank num den : Nat) (point : Int) : Nat → Nat → Nat × Nat
  | 0, count => (num * Nat.pow 10 ((count : Int) - point).toNat / den, count)
  | fuel + 1, count =>
    match candidate? tie rank num den point count with
    | some d => (d, count)
    | none => search tie rank num den point fuel (count + 1)

/-- The digits without trailing zeros. -/
def dropZeros (ds : List Char) : List Char := (ds.reverse.dropWhile (· == '0')).reverse

/-- The shortest numeral of a finite magnitude. Zero is the single digit before the point. -/
def shortest (tie : Tie) (rank : Nat) : Numeral :=
  if rank = 0 then ⟨['0'], 1⟩
  else
    let e := exponent rank
    let num := significand rank * Nat.pow 2 e.toNat
    let den := Nat.pow 2 (-e).toNat
    let point := decimalPoint num den
    let (d, count) := search tie rank num den point 17 1
    let ds := Nat.toDigits 10 d
    ⟨dropZeros ds, point + ds.length - count⟩

end Scriptorium.Decimal

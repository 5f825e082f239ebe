import Scriptorium.Json.Basic
import Scriptorium.Decimal.Text
import Scriptorium.Decimal.Arithmetic
import Scriptorium.Value.Integer

/-!
# Numerals of JSON documents

A numeral without point and exponent denotes an integer while it fits a word of
64 bits, with or without a sign; minus zero and everything else denotes a
decimal. A decimal is computed with one word of precision: digits are collected
while they fit an unsigned word, the word is rounded to a decimal, and that is
multiplied or divided by a rounded power of ten. A numeral that leads to
infinity denotes nothing.
-/

namespace Scriptorium.Json

/-- What a numeral denotes. -/
inductive Number where
  | natural (n : Nat)
  | negative (n : Int64)
  | decimal (d : Decimal)
  deriving DecidableEq, Repr

/-- The parts of a numeral. -/
structure Numeral where
  negative : Bool
  whole : List Char
  fraction : List Char
  exponent : Int
  isIntegral : Bool
  deriving DecidableEq, Repr

/-- The parts of a numeral as it is written. -/
def Numeral.ofText (cs : List Char) : Numeral :=
  let body := Text.unsigned cs
  let whole := body.takeWhile Char.isDigit
  let rest := body.dropWhile Char.isDigit
  let (fraction, tail) := match rest with
    | '.' :: rest => (rest.takeWhile Char.isDigit, rest.dropWhile Char.isDigit)
    | _ => ([], rest)
  { negative := cs.head? == some '-'
    whole
    fraction
    exponent := (Decimal.readExponent? tail).getD 0
    isIntegral := rest.isEmpty }

/-- Unsigned words lie below this bound. -/
def wordBound : Nat := UInt64.size

/-- Collects the digits before the point: the number collected, and how many digits are left
over once one does not fit. -/
def collectWhole (n : Nat) : List Char → Nat × Int
  | [] => (n, 0)
  | c :: cs =>
    let next := 10 * n + Text.digitValue c
    if next < wordBound then collectWhole next cs else (n, cs.length + 1)

/-- Collects the digits after the point, each of which lowers the exponent, until one does
not fit. -/
def collectFraction (n : Nat) (exponent : Int) : List Char → Nat × Int
  | [] => (n, exponent)
  | c :: cs =>
    let next := 10 * n + Text.digitValue c
    if next < wordBound then collectFraction next (exponent - 1) cs else (n, exponent)

/-- A power of ten rounded to a decimal. -/
def powerOfTen (n : Nat) : Decimal := Decimal.ofDigits false 1 n

/-- The decimal scaled by a power of ten, none when the result is infinite. Four steps of
308 places take every decimal to zero. -/
def scaleByTen : Nat → Decimal → Int → Option Decimal
  | 0, _, _ => none
  | fuel + 1, d, e =>
    if 0 ≤ e && e ≤ 308 then
      let r := d.mul (powerOfTen e.toNat)
      if r.isFinite then some r else none
    else if e < 0 && -308 ≤ e then some (d.div (powerOfTen (-e).toNat))
    else if d.isZero then some d
    else if e > 0 then none
    else scaleByTen fuel (d.div (powerOfTen 308)) (e + 308)

/-- The decimal that a numeral denotes. -/
def Numeral.decimal? (n : Numeral) : Option Decimal :=
  let (word, left) := collectWhole 0 n.whole
  let (word, e) := collectFraction word left n.fraction
  (scaleByTen 5 (Decimal.ofInt word) (e + n.exponent)).map fun d =>
    if n.negative then d.neg else d

/-- What a numeral denotes, none when it is too large. -/
def number? (cs : List Char) : Option Number :=
  let n := Numeral.ofText cs
  let value := Text.digitsValue n.whole
  if n.isIntegral && value < wordBound then
    if n.negative then
      match Integer.ofInt? (-(value : Int)) with
      | some w => if w = 0 then some (.decimal (Decimal.zero true)) else some (.negative w)
      | none => some (.decimal (Decimal.ofInt (-(value : Int))))
    else some (.natural value)
  else n.decimal?.map .decimal

/-- The numeral of an integer. -/
def ofInt64 (n : Int64) : Json := .number (Integer.numeral n)

/-- The numeral of a natural number. -/
def ofNat (n : Nat) : Json := .number (Text.natDigits n)

/-- The numeral of a decimal. What is not finite has none and is written as null. -/
def ofDecimal (d : Decimal) : Json :=
  match d.marked with
  | some numeral => .number numeral
  | none => .null

/-- The natural number below a bound that a document denotes. -/
def nat? (bound : Nat) : Json → Option Nat
  | .number numeral =>
    match number? numeral with
    | some (.natural n) => if n < bound then some n else none
    | _ => none
  | _ => none

/-- The word that a document denotes. -/
def int64? : Json → Option Int64
  | .number numeral =>
    match number? numeral with
    | some (.natural n) => Integer.ofInt? n
    | some (.negative w) => some w
    | _ => none
  | _ => none

/-- The decimal that a document denotes. An integer is rounded. -/
def decimal? : Json → Option Decimal
  | .number numeral =>
    match number? numeral with
    | some (.natural n) => some (Decimal.ofInt n)
    | some (.negative w) => some (Decimal.ofInt w.toInt)
    | some (.decimal d) => some d
    | none => none
  | _ => none

/-- The truth value that a document denotes. -/
def boolean? : Json → Option Bool
  | .boolean b => some b
  | _ => none

end Scriptorium.Json

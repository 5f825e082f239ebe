import Scriptorium.Decimal.Shortest
import Scriptorium.Text.Numeral

/-!
# Decimals as text

Two spellings are written from the shortest digits. The plain one is always
positional and has no point when the number is whole; a tie between two numerals
goes to the larger one. The marked one always shows that the number is a
decimal: it is positional with at least one digit after the point while the
point stands near the digits, and otherwise has one digit before the point and
an exponent with its sign; a tie goes to the even digit.

`read?` accepts an optional sign, then a word for infinity or for what is not a
number in letters of either case, or digits with an optional point and an
optional exponent; the number read is the nearest decimal.
-/

namespace Scriptorium.Decimal

/-- A run of zeros. -/
def zeros (n : Nat) : List Char := List.replicate n '0'

/-- A minus sign where it is due. -/
def signMark (negative : Bool) : List Char := if negative then ['-'] else []

/-- The digits with the point in its place, without an exponent. -/
def Numeral.positional (n : Numeral) : List Char :=
  let size : Int := n.digits.length
  if n.point ≤ 0 then '0' :: '.' :: zeros (-n.point).toNat ++ n.digits
  else if n.point ≥ size then n.digits ++ zeros (n.point - size).toNat
  else n.digits.take n.point.toNat ++ '.' :: n.digits.drop n.point.toNat

/-- The positional spelling while the point stands near the digits, otherwise the spelling
with an exponent. -/
def Numeral.marked (n : Numeral) : List Char :=
  let size : Int := n.digits.length
  if n.point ≥ size && n.point ≤ 16 then n.positional ++ ['.', '0']
  else if n.point > -5 && n.point ≤ 16 then n.positional
  else
    let mantissa := match n.digits with
      | d :: e :: rest => d :: '.' :: e :: rest
      | ds => ds
    let e := n.point - 1
    mantissa ++ 'e' :: (if e < 0 then '-' else '+') :: Text.natDigits e.natAbs

/-- The plain spelling of a decimal. -/
def plain : Decimal → List Char
  | .nan => ['N', 'a', 'N']
  | .infinite negative => signMark negative ++ ['i', 'n', 'f']
  | .finite negative rank => signMark negative ++ (shortest .up rank).positional

/-- The marked spelling of a finite decimal. -/
def marked : Decimal → Option (List Char)
  | .finite negative rank => some (signMark negative ++ (shortest .even rank).marked)
  | _ => none

instance : ToString Decimal := ⟨fun d => String.ofList d.plain⟩

/-- A sign in front of the rest of a text: whether it is negative, and the rest. -/
def cutSign : List Char → Bool × List Char
  | '-' :: cs => (true, cs)
  | '+' :: cs => (false, cs)
  | cs => (false, cs)

/-- The exponent behind a mantissa: nothing, or the letter e and a signed run of digits. -/
def readExponent? : List Char → Option Int
  | [] => some 0
  | c :: cs =>
    if c == 'e' || c == 'E' then
      let (negative, ds) := cutSign cs
      if Text.isDigits ds then
        some (if negative then -(Text.digitsValue ds : Int) else Text.digitsValue ds)
      else none
    else none

/-- Digits with an optional point and an optional exponent. -/
def readNumeral? (negative : Bool) (cs : List Char) : Option Decimal := do
  let whole := cs.takeWhile Char.isDigit
  let rest := cs.dropWhile Char.isDigit
  let (fraction, rest) := match rest with
    | '.' :: tail => (tail.takeWhile Char.isDigit, tail.dropWhile Char.isDigit)
    | _ => ([], rest)
  if whole.isEmpty && fraction.isEmpty then none
  else
    let e ← readExponent? rest
    return ofDigits negative (Text.digitsValue (whole ++ fraction)) (e - fraction.length)

/-- The decimal that a text denotes. -/
def read? (cs : List Char) : Option Decimal :=
  let (negative, body) := cutSign cs
  let word := String.ofList (body.map Char.toLower)
  if word == "inf" || word == "infinity" then some (.infinite negative)
  else if word == "nan" then some .nan
  else readNumeral? negative body

end Scriptorium.Decimal

import Scriptorium.Json.Escape
import Scriptorium.Toml.Basic

/-!
# Unquoted values of TOML

Booleans, integers in four bases, decimals, dates and times. Underscores may
separate digits. Integers have 64 bits. A time may have a fraction, of which
nine digits count, and a date with a time may have an offset.
-/

namespace Scriptorium.Toml

/-- The digits without the underscores between them. Every underscore stands between two
digits. -/
def digits? (isDigit : Char → Bool) : List Char → Option (List Char)
  | [] => none
  | [c] => if isDigit c then some [c] else none
  | c :: '_' :: cs => if isDigit c then (digits? isDigit cs).map (c :: ·) else none
  | c :: cs => if isDigit c then (digits? isDigit cs).map (c :: ·) else none

/-- The number that digits of a base denote. -/
def baseValue? (base : Nat) (cs : List Char) : Option Nat := do
  let ds ← digits? (fun c => (Json.hexDigit? c).any (· < base)) cs
  ds.foldlM (fun n c => (Json.hexDigit? c).map (base * n + ·)) 0

/-- The digits of a number in base ten, which begins with zero only if it is zero. -/
def wholeDigits? (cs : List Char) : Option (List Char) := do
  let ds ← digits? Char.isDigit cs
  match ds with
  | '0' :: _ :: _ => none
  | _ => return ds

/-- The integer has 64 bits. -/
def fits (n : Int) : Bool := Int64.minValue.toInt ≤ n && n ≤ Int64.maxValue.toInt

/-- The integer that a word denotes. -/
def integer? (cs : List Char) : Option Int := do
  let n ← match cs with
    | '0' :: 'x' :: ds => (baseValue? 16 ds).map Int.ofNat
    | '0' :: 'o' :: ds => (baseValue? 8 ds).map Int.ofNat
    | '0' :: 'b' :: ds => (baseValue? 2 ds).map Int.ofNat
    | _ =>
      let (negative, body) := Decimal.cutSign cs
      (wholeDigits? body).map fun ds =>
        if negative then -(Text.digitsValue ds : Int) else Text.digitsValue ds
  if fits n then some n else none

/-- The exponent of a decimal as it is read, without underscores. -/
def exponentDigits? (cs : List Char) : Option (List Char) :=
  let (negative, body) := Decimal.cutSign cs
  (digits? Char.isDigit body).map fun ds => if negative then '-' :: ds else ds

/-- A decimal without sign and underscores: digits with a fraction, an exponent, or both. -/
def decimalBody? (cs : List Char) : Option (List Char) := do
  let isMark (c : Char) : Bool := c == 'e' || c == 'E'
  let mantissa := cs.takeWhile fun c => !isMark c
  let whole ← wholeDigits? (mantissa.takeWhile (· ≠ '.'))
  let fraction ← match mantissa.dropWhile (· ≠ '.') with
    | [] => some []
    | _ :: ds => (digits? Char.isDigit ds).map ('.' :: ·)
  match cs.dropWhile fun c => !isMark c with
  | [] => if fraction.isEmpty then none else return whole ++ fraction
  | _ :: ds => return whole ++ fraction ++ 'e' :: (← exponentDigits? ds)

/-- The decimal that a word denotes. Digits with too large an exponent denote infinity, which is
refused where it is positive. -/
def decimal? (cs : List Char) : Option Decimal :=
  let (negative, body) := Decimal.cutSign cs
  match body with
  | ['i', 'n', 'f'] => some (.infinite negative)
  | ['n', 'a', 'n'] => some .nan
  | _ => do
    let d ← Decimal.readNumeral? negative (← decimalBody? body)
    if d = .infinite false then none else some d

/-- The number that exactly `size` digits at the front denote, and the rest. -/
def cutDigits? (size : Nat) (cs : List Char) : Option (Nat × List Char) :=
  let ds := cs.take size
  if ds.length = size && ds.all Char.isDigit then some (Text.digitsValue ds, cs.drop size)
  else none

/-- The number in two digits at least. -/
def padded (size n : Nat) : List Char :=
  let ds := Text.natDigits n
  List.replicate (size - ds.length) '0' ++ ds

/-- The number of days of a month. -/
def monthDays (year month : Nat) : Nat :=
  if month = 2 then
    if year % 4 = 0 && (year % 100 ≠ 0 || year % 400 = 0) then 29 else 28
  else if month = 4 || month = 6 || month = 9 || month = 11 then 30
  else 31

/-- The spelling of the date at the front, and the rest. -/
def cutDate? (cs : List Char) : Option (List Char × List Char) := do
  let (year, cs) ← cutDigits? 4 cs
  let '-' :: cs := cs | none
  let (month, cs) ← cutDigits? 2 cs
  let '-' :: cs := cs | none
  let (day, cs) ← cutDigits? 2 cs
  if 1 ≤ month && month ≤ 12 && 1 ≤ day && day ≤ monthDays year month then
    return (padded 4 year ++ '-' :: padded 2 month ++ '-' :: padded 2 day, cs)
  else none

/-- The list without the zeros at its end. -/
def dropZeros (cs : List Char) : List Char := (cs.reverse.dropWhile (· == '0')).reverse

/-- The spelling of the fraction of a second at the front, if there is one, and the rest. -/
def cutFraction? : List Char → Option (List Char × List Char)
  | '.' :: cs =>
    let ds := cs.takeWhile Char.isDigit
    let kept := dropZeros (ds.take 9)
    if ds.isEmpty then none
    else some (if kept.isEmpty then [] else '.' :: kept, cs.dropWhile Char.isDigit)
  | cs => some ([], cs)

/-- The spelling of the time at the front, and the rest. -/
def cutTime? (cs : List Char) : Option (List Char × List Char) := do
  let (hour, cs) ← cutDigits? 2 cs
  let ':' :: cs := cs | none
  let (minute, cs) ← cutDigits? 2 cs
  let ':' :: cs := cs | none
  let (second, cs) ← cutDigits? 2 cs
  let (fraction, cs) ← cutFraction? cs
  if hour ≤ 23 && minute ≤ 59 && second ≤ 60 then
    return (padded 2 hour ++ ':' :: padded 2 minute ++ ':' :: padded 2 second ++ fraction, cs)
  else none

/-- The spelling of an offset, which is empty where there is none. -/
def offset? : List Char → Option (List Char)
  | [] => some []
  | ['Z'] | ['z'] => some ['Z']
  | sign :: cs => do
    if sign ≠ '+' && sign ≠ '-' then none
    else
      let (hour, cs) ← cutDigits? 2 cs
      let ':' :: cs := cs | none
      let (minute, cs) ← cutDigits? 2 cs
      if cs.isEmpty && hour ≤ 23 && minute ≤ 59 then
        let sign := if hour = 0 && minute = 0 then '+' else sign
        return sign :: padded 2 hour ++ ':' :: padded 2 minute
      else none

/-- The normal spelling of the date, the time or both that a word denotes. -/
def date? (cs : List Char) : Option (List Char) :=
  match cutDate? cs with
  | some (day, []) => some day
  | some (day, sep :: cs) => do
    if sep == 'T' || sep == 't' || sep == ' ' then
      let (time, cs) ← cutTime? cs
      return day ++ 'T' :: time ++ (← offset? cs)
    else none
  | none => do
    let (time, []) ← cutTime? cs | none
    return time

/-- The value that an unquoted word denotes. -/
def scalar? (word : List Char) : Option Toml :=
  match word with
  | ['t', 'r', 'u', 'e'] => some (.boolean true)
  | ['f', 'a', 'l', 's', 'e'] => some (.boolean false)
  | _ =>
    match date? word, integer? word, decimal? word with
    | some spelling, _, _ => some (.date (String.ofList spelling))
    | _, some n, _ => some (.integer n)
    | _, _, some d => some (.decimal d)
    | _, _, _ => none

/-- The character may stand in an unquoted value. -/
def isWordPart (c : Char) : Bool :=
  c.isAlphanum || c == '+' || c == '-' || c == '_' || c == '.' || c == ':'

/-- The unquoted word at the front, and the rest. A date takes the time behind a blank with
it. -/
def cutWord (cs : List Char) : List Char × List Char :=
  let word := cs.takeWhile isWordPart
  match (cutDate? word).map (·.2), cs.dropWhile isWordPart with
  | some [], ' ' :: c :: rest =>
    if c.isDigit then
      (word ++ ' ' :: c :: rest.takeWhile isWordPart, rest.dropWhile isWordPart)
    else (word, ' ' :: c :: rest)
  | _, rest => (word, rest)

/-- The unquoted value at the front, and the rest. -/
def cutScalar? (cs : List Char) : Option (Toml × List Char) :=
  let (word, rest) := cutWord cs
  (scalar? word).map (·, rest)

end Scriptorium.Toml

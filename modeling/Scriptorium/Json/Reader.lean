import Scriptorium.Json.Escape
import Scriptorium.Json.Number

/-!
# Reading JSON documents

The reader accepts the grammar of JSON: one value with blanks around it, where
the blanks are space, tab, line feed and carriage return. It checks the spelling
of numerals and escapes and leaves their meaning alone. Every step takes at
least one character, so a text's length bounds the work.
-/

namespace Scriptorium.Json

/-- A blank between the parts of a document. -/
def isSpace (c : Char) : Bool := c == ' ' || c == '\t' || c == '\n' || c == '\r'

/-- The text behind leading blanks. -/
def skipSpace (cs : List Char) : List Char := cs.dropWhile isSpace

/-- The escaped text up to the closing quote, and what follows the quote. -/
def cutString? : List Char → Option (List Char × List Char)
  | [] => none
  | '"' :: cs => some ([], cs)
  | '\\' :: 'u' :: a :: b :: c :: d :: cs =>
    if (hexUnit? a b c d).isSome then
      (cutString? cs).map fun (s, rest) => ('\\' :: 'u' :: a :: b :: c :: d :: s, rest)
    else none
  | '\\' :: c :: cs =>
    if (simpleEscape? c).isSome then
      (cutString? cs).map fun (s, rest) => ('\\' :: c :: s, rest)
    else none
  | c :: cs =>
    if c = '\\' || c.toNat < 32 then none
    else (cutString? cs).map fun (s, rest) => (c :: s, rest)

/-- A sign, if there is one, and the rest. -/
def cutMinus : List Char → List Char × List Char
  | '-' :: cs => (['-'], cs)
  | cs => ([], cs)

/-- The digits at the front, and the rest. -/
def cutDigits (cs : List Char) : List Char × List Char :=
  (cs.takeWhile Char.isDigit, cs.dropWhile Char.isDigit)

/-- The digits before the point: a zero alone, or digits that begin with another. -/
def cutWhole? : List Char → Option (List Char × List Char)
  | '0' :: cs => some (['0'], cs)
  | cs =>
    let (ds, rest) := cutDigits cs
    if ds.isEmpty then none else some (ds, rest)

/-- A point with at least one digit, or nothing. -/
def cutFraction? : List Char → Option (List Char × List Char)
  | '.' :: cs =>
    let (ds, rest) := cutDigits cs
    if ds.isEmpty then none else some ('.' :: ds, rest)
  | cs => some ([], cs)

/-- The sign of an exponent, if there is one, and the rest. -/
def cutExponentSign : List Char → List Char × List Char
  | '+' :: cs => (['+'], cs)
  | cs => cutMinus cs

/-- The letter e with a sign and at least one digit, or nothing. -/
def cutExponent? : List Char → Option (List Char × List Char)
  | [] => some ([], [])
  | c :: cs =>
    if c == 'e' || c == 'E' then
      let (sign, tail) := cutExponentSign cs
      let (ds, rest) := cutDigits tail
      if ds.isEmpty then none else some (c :: sign ++ ds, rest)
    else some ([], c :: cs)

/-- The numeral at the front, and the rest. -/
def cutNumeral? (cs : List Char) : Option (List Char × List Char) := do
  let (sign, cs) := cutMinus cs
  let (whole, cs) ← cutWhole? cs
  let (fraction, cs) ← cutFraction? cs
  let (exponent, cs) ← cutExponent? cs
  return (sign ++ whole ++ fraction ++ exponent, cs)

mutual

/-- The value at the front of a text that does not begin with a blank, and the rest. -/
def readValue? : Nat → List Char → Option (Json × List Char)
  | 0, _ => none
  | _ + 1, 'n' :: 'u' :: 'l' :: 'l' :: cs => some (.null, cs)
  | _ + 1, 't' :: 'r' :: 'u' :: 'e' :: cs => some (.boolean true, cs)
  | _ + 1, 'f' :: 'a' :: 'l' :: 's' :: 'e' :: cs => some (.boolean false, cs)
  | _ + 1, '"' :: cs => (cutString? cs).map fun (s, rest) => (.string s, rest)
  | fuel + 1, '[' :: cs =>
    match skipSpace cs with
    | ']' :: rest => some (.array [], rest)
    | cs => (readItems? fuel cs).map fun (js, rest) => (.array js, rest)
  | fuel + 1, '{' :: cs =>
    match skipSpace cs with
    | '}' :: rest => some (.object [], rest)
    | cs => (readMembers? fuel cs).map fun (ms, rest) => (.object ms, rest)
  | _ + 1, cs => (cutNumeral? cs).map fun (n, rest) => (.number n, rest)

/-- At least one value, separated by commas, up to the closing bracket. -/
def readItems? : Nat → List Char → Option (List Json × List Char)
  | 0, _ => none
  | fuel + 1, cs => do
    let (j, rest) ← readValue? fuel cs
    match skipSpace rest with
    | ']' :: rest => return ([j], rest)
    | ',' :: rest =>
      let (js, rest) ← readItems? fuel (skipSpace rest)
      return (j :: js, rest)
    | _ => none

/-- At least one member, separated by commas, up to the closing brace. -/
def readMembers? : Nat → List Char → Option (List (List Char × Json) × List Char)
  | 0, _ => none
  | _ + 1, [] => none
  | fuel + 1, c :: cs => do
    if c ≠ '"' then none
    else
      let (key, rest) ← cutString? cs
      match skipSpace rest with
      | ':' :: rest =>
        let (j, rest) ← readValue? fuel (skipSpace rest)
        match skipSpace rest with
        | '}' :: rest => return ([(key, j)], rest)
        | ',' :: rest =>
          let (ms, rest) ← readMembers? fuel (skipSpace rest)
          return ((key, j) :: ms, rest)
        | _ => none
      | _ => none

end

/-- The document that a text denotes. -/
def read? (cs : List Char) : Option Json := do
  let (j, rest) ← readValue? (2 * cs.length + 2) (skipSpace cs)
  if (skipSpace rest).isEmpty then some j else none

end Scriptorium.Json

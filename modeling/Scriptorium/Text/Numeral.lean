/-!
# Numerals

The spellings of numbers in expressions. An integer is an optional minus sign
and at least one ASCII digit. A decimal has exactly one point, only digits
around it and at least one digit after it, so the digits before the point may
be missing. Leading zeros are allowed in both.
-/

namespace Scriptorium.Text

/-- The text without a leading minus sign. -/
def unsigned : List Char → List Char
  | '-' :: cs => cs
  | cs => cs

/-- At least one character, all of them ASCII digits. -/
def isDigits (cs : List Char) : Bool := !cs.isEmpty && cs.all Char.isDigit

/-- An optional minus sign followed by at least one digit. -/
def isInteger (cs : List Char) : Bool := isDigits (unsigned cs)

/-- An integer without a sign that does not begin with zero. -/
def isPositiveInteger (cs : List Char) : Bool :=
  match cs with
  | [] => false
  | c :: _ => c != '-' && c != '0' && isInteger cs

/-- An optional minus sign, any number of digits, a point, at least one digit. -/
def isDecimal (cs : List Char) : Bool :=
  let body := unsigned cs
  match body.dropWhile (· != '.') with
  | _ :: fraction => (body.takeWhile (· != '.')).all Char.isDigit && isDigits fraction
  | [] => false

/-- The value of one digit. -/
def digitValue (c : Char) : Nat := c.toNat - '0'.toNat

/-- The number that a run of digits denotes. -/
def digitsValue (cs : List Char) : Nat := cs.foldl (fun n c => 10 * n + digitValue c) 0

/-- The number that an integer numeral denotes. -/
def integerValue (cs : List Char) : Int :=
  match cs with
  | '-' :: ds => -(digitsValue ds : Int)
  | ds => digitsValue ds

/-- The digits of a number without leading zeros. -/
def natDigits (n : Nat) : List Char := Nat.toDigits 10 n

/-- The numeral of an integer: its digits, behind a minus sign when it is negative. -/
def intNumeral (n : Int) : List Char :=
  if n < 0 then '-' :: natDigits n.natAbs else natDigits n.natAbs

/-- The first character may begin an identifier. -/
def isIdentifierStart (c : Char) : Bool := c.isAlpha || c == '_'

/-- The character may continue an identifier. -/
def isIdentifierPart (c : Char) : Bool := c.isAlphanum || c == '_'

/-- An ASCII letter or underscore followed by ASCII letters, digits and underscores. -/
def isIdentifier (cs : List Char) : Bool :=
  match cs with
  | [] => false
  | c :: rest => isIdentifierStart c && rest.all isIdentifierPart

end Scriptorium.Text

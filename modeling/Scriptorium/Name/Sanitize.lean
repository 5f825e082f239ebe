import Scriptorium.Text.Numeral

/-!
# Identifier spelling of free text

A name written by a person is mapped onto ASCII letters, digits and underscores.
Symbols that occur in formulas have tokens of their own; every other character
that is not already allowed is written by its number in hexadecimal digits
between `_x` and `_`. `desanitize` reads the same spelling from left to right.
-/

namespace Scriptorium.Name

/-- Hexadecimal digits of a number, at least two of them. -/
def hexNumber (n : Nat) : List Char :=
  let ds := Nat.toDigits 16 n
  if ds.length < 2 then '0' :: ds else ds

/-- The spelling of a character without a token of its own. -/
def escapeChar (c : Char) : List Char :=
  if c.isAlphanum || c == '_' then [c] else '_' :: 'x' :: hexNumber c.toNat ++ ['_']

/-- The identifier spelling of a text. The two-character symbols are taken before any
character by itself. -/
def sanitize : List Char → List Char
  | '&' :: '&' :: cs => ['_', 'A', 'n', 'd', '_'] ++ sanitize cs
  | '|' :: '|' :: cs => ['_', 'O', 'r', '_'] ++ sanitize cs
  | '-' :: cs => ['_', 'M', 'n', 's', '_'] ++ sanitize cs
  | '+' :: cs => ['_', 'P', 'l', 's', '_'] ++ sanitize cs
  | '*' :: cs => ['_', 'M', 'l', 't', '_'] ++ sanitize cs
  | '/' :: cs => ['_', 'D', 'i', 'v', '_'] ++ sanitize cs
  | '.' :: cs => ['_', 'd', 't', '_'] ++ sanitize cs
  | '[' :: cs => ['_', 'L', 'b', '_'] ++ sanitize cs
  | ']' :: cs => ['_', 'R', 'b', '_'] ++ sanitize cs
  | c :: cs => escapeChar c ++ sanitize cs
  | [] => []

/-- The value of a hexadecimal digit of either case. -/
def hexDigit? (c : Char) : Option Nat :=
  if c.isDigit then some (c.toNat - '0'.toNat)
  else if 'a' ≤ c && c ≤ 'f' then some (c.toNat - 'a'.toNat + 10)
  else if 'A' ≤ c && c ≤ 'F' then some (c.toNat - 'A'.toNat + 10)
  else none

/-- The number that a run of hexadecimal digits denotes, when there is at least one. -/
def hexValue? (cs : List Char) : Option Nat :=
  if cs.isEmpty then none
  else cs.foldlM (fun n c => (hexDigit? c).map (16 * n + ·)) 0

/-- The character with this number, unless the number lies outside Unicode or denotes a
surrogate. -/
def charOfNat? (n : Nat) : Option Char :=
  if h : n.isValidChar then some (Char.ofNatAux n h) else none

/-- The character that an escape denotes. A plus sign in front of the digits is read over. -/
def escapedChar? (digits : List Char) : Option Char :=
  let ds := match digits with
    | '+' :: ds => ds
    | ds => ds
  (hexValue? ds).bind charOfNat?

/-- The text of a symbol token or escape at the front, and the number of characters it takes. -/
def token? : List Char → Option (List Char × Nat)
  | '_' :: 'A' :: 'n' :: 'd' :: '_' :: _ => some (['&', '&'], 5)
  | '_' :: 'O' :: 'r' :: '_' :: _ => some (['|', '|'], 4)
  | '_' :: 'M' :: 'n' :: 's' :: '_' :: _ => some (['-'], 5)
  | '_' :: 'P' :: 'l' :: 's' :: '_' :: _ => some (['+'], 5)
  | '_' :: 'M' :: 'l' :: 't' :: '_' :: _ => some (['*'], 5)
  | '_' :: 'D' :: 'i' :: 'v' :: '_' :: _ => some (['/'], 5)
  | '_' :: 'd' :: 't' :: '_' :: _ => some (['.'], 4)
  | '_' :: 'L' :: 'b' :: '_' :: _ => some (['['], 4)
  | '_' :: 'R' :: 'b' :: '_' :: _ => some ([']'], 4)
  | '_' :: 'x' :: cs =>
    let digits := cs.takeWhile (· != '_')
    if digits.length < cs.length then
      (escapedChar? digits).map fun c => ([c], digits.length + 3)
    else none
  | _ => none

/-- `desanitize` while `skip` characters of a token already read remain. -/
def desanitizeFrom : Nat → List Char → List Char
  | _, [] => []
  | skip + 1, _ :: cs => desanitizeFrom skip cs
  | 0, c :: cs =>
    match token? (c :: cs) with
    | some (text, size) => text ++ desanitizeFrom (size - 1) cs
    | none => c :: desanitizeFrom 0 cs

/-- The text that an identifier spelling stands for. What is no token stands for itself. -/
def desanitize (cs : List Char) : List Char := desanitizeFrom 0 cs

end Scriptorium.Name

import Scriptorium.Json.Basic

/-!
# Escaped text

Inside the quotes of a JSON string a quote, a backslash and the control
characters are written as escapes; every other character stands for itself.
Reading also knows the escapes that are never written: a slash, and any
character by the hexadecimal numbers of its UTF-16 units. A unit of a surrogate
pair that stands alone denotes no text.
-/

namespace Scriptorium.Json

/-- The value of a hexadecimal digit. -/
def hexDigit? (c : Char) : Option Nat :=
  if c.isDigit then some (c.toNat - '0'.toNat)
  else if 'a' ≤ c && c ≤ 'f' then some (c.toNat - 'a'.toNat + 10)
  else if 'A' ≤ c && c ≤ 'F' then some (c.toNat - 'A'.toNat + 10)
  else none

/-- The number that four hexadecimal digits denote. -/
def hexUnit? (a b c d : Char) : Option Nat := do
  let a ← hexDigit? a
  let b ← hexDigit? b
  let c ← hexDigit? c
  let d ← hexDigit? d
  return ((a * 16 + b) * 16 + c) * 16 + d

/-- A hexadecimal digit in lower case. -/
def hexChar (n : Nat) : Char := if n < 10 then Char.ofNat (48 + n) else Char.ofNat (87 + n)

/-- The spelling of one character inside quotes. -/
def escapeChar (c : Char) : List Char :=
  if c = '"' then ['\\', '"']
  else if c = '\\' then ['\\', '\\']
  else if c = '\n' then ['\\', 'n']
  else if c = '\r' then ['\\', 'r']
  else if c = '\t' then ['\\', 't']
  else if c.toNat = 8 then ['\\', 'b']
  else if c.toNat = 12 then ['\\', 'f']
  else if c.toNat < 32 then
    ['\\', 'u', '0', '0', hexChar (c.toNat / 16), hexChar (c.toNat % 16)]
  else [c]

/-- The spelling of a text inside quotes. -/
def escape (cs : List Char) : List Char := cs.flatMap escapeChar

/-- The character that a one-letter escape denotes. -/
def simpleEscape? (c : Char) : Option Char :=
  match c with
  | '"' | '\\' | '/' => some c
  | 'b' => some (Char.ofNat 8)
  | 'f' => some (Char.ofNat 12)
  | 'n' => some '\n'
  | 'r' => some '\r'
  | 't' => some '\t'
  | _ => none

/-- The unit may begin a surrogate pair. -/
def isHighSurrogate (n : Nat) : Bool := 0xD800 ≤ n && n < 0xDC00

/-- The unit may end a surrogate pair. -/
def isLowSurrogate (n : Nat) : Bool := 0xDC00 ≤ n && n < 0xE000

/-- The character of a surrogate pair. -/
def pairChar (high low : Nat) : Char :=
  Char.ofNat (0x10000 + (high - 0xD800) * 0x400 + (low - 0xDC00))

/-- The text that an escaped text denotes. -/
def unescape? : List Char → Option (List Char)
  | [] => some []
  | '\\' :: 'u' :: a :: b :: c :: d :: '\\' :: 'u' :: e :: f :: g :: h :: cs => do
    let n ← hexUnit? a b c d
    if isHighSurrogate n then
      let m ← hexUnit? e f g h
      if isLowSurrogate m then return pairChar n m :: (← unescape? cs) else none
    else if isLowSurrogate n then none
    else return Char.ofNat n :: (← unescape? ('\\' :: 'u' :: e :: f :: g :: h :: cs))
  | '\\' :: 'u' :: a :: b :: c :: d :: cs => do
    let n ← hexUnit? a b c d
    if isHighSurrogate n || isLowSurrogate n then none
    else return Char.ofNat n :: (← unescape? cs)
  | '\\' :: c :: cs => do return (← simpleEscape? c) :: (← unescape? cs)
  | c :: cs => if c = '\\' then none else do return c :: (← unescape? cs)

/-- A JSON string that denotes the text. -/
def ofText (s : String) : Json := .string (escape s.toList)

/-- The text that a JSON string denotes. -/
def text? : Json → Option String
  | .string escaped => (unescape? escaped).map String.ofList
  | _ => none

/-- An object with the given member names. -/
def ofMembers (members : List (String × Json)) : Json :=
  .object (members.map fun m => (escape m.1.toList, m.2))

end Scriptorium.Json

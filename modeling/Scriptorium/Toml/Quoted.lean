import Scriptorium.Json.Escape
import Scriptorium.Toml.Basic

/-!
# Quoted texts and keys of TOML

A text stands between double quotes with escapes, or between single quotes as
it is; three quotes on either side let it span several lines. A key is a bare
word or a text on one line, and points join keys to a path, whose length is
bounded.
-/

namespace Scriptorium.Toml

/-- The character with this code point. -/
def codePoint? (n : Nat) : Option Char := if n.isValidChar then some (Char.ofNat n) else none

/-- The number that hexadecimal digits denote. -/
def hexValue? (cs : List Char) : Option Nat :=
  cs.foldlM (fun n c => (Json.hexDigit? c).map (16 * n + ·)) 0

/-- The character that an escape of one letter denotes. -/
def simpleEscape? (c : Char) : Option Char :=
  match c with
  | '"' | '\\' => some c
  | 'b' => some (Char.ofNat 8)
  | 't' => some '\t'
  | 'n' => some '\n'
  | 'f' => some (Char.ofNat 12)
  | 'r' => some '\r'
  | _ => none

/-- The character of an escape behind its backslash, and the rest of the text. -/
def cutEscape? : List Char → Option (Char × List Char)
  | [] => none
  | c :: cs =>
    let hex (size : Nat) : Option (Char × List Char) :=
      if (cs.take size).length = size then
        ((hexValue? (cs.take size)).bind codePoint?).map (·, cs.drop size)
      else none
    if c = 'u' then hex 4 else if c = 'U' then hex 8 else (simpleEscape? c).map (·, cs)

/-- A character in front of what was cut. -/
def consCut (c : Char) (cut : List Char × List Char) : List Char × List Char :=
  (c :: cut.1, cut.2)

/-- A text up to a closing double quote, of at most `fuel` characters, and the rest. -/
def cutBasicFor : Nat → List Char → Option (List Char × List Char)
  | 0, _ => none
  | _ + 1, [] => none
  | _ + 1, '"' :: cs => some ([], cs)
  | fuel + 1, '\\' :: cs => do
    let (c, rest) ← cutEscape? cs
    return consCut c (← cutBasicFor fuel rest)
  | fuel + 1, c :: cs => if isPlain c then (cutBasicFor fuel cs).map (consCut c) else none

/-- A text up to three closing double quotes, of at most `fuel` characters, and the rest. Up to
two quotes in front of the closing ones belong to the text. A backslash at the end of a line
takes the blanks and ends of lines behind it away. -/
def cutBasicLinesFor : Nat → List Char → Option (List Char × List Char)
  | 0, _ => none
  | _ + 1, [] => none
  | _ + 1, '"' :: '"' :: '"' :: '"' :: '"' :: cs => some (['"', '"'], cs)
  | _ + 1, '"' :: '"' :: '"' :: '"' :: cs => some (['"'], cs)
  | _ + 1, '"' :: '"' :: '"' :: cs => some ([], cs)
  | fuel + 1, '\\' :: cs =>
    match skipSpace cs with
    | '\n' :: rest => cutBasicLinesFor fuel (rest.dropWhile fun c => isSpace c || c == '\n')
    | _ => do
      let (c, rest) ← cutEscape? cs
      return consCut c (← cutBasicLinesFor fuel rest)
  | fuel + 1, c :: cs =>
    if c == '\n' || isPlain c then (cutBasicLinesFor fuel cs).map (consCut c) else none

/-- A text up to a closing single quote, and the rest. -/
def cutLiteral? : List Char → Option (List Char × List Char)
  | [] => none
  | '\'' :: cs => some ([], cs)
  | c :: cs => if isPlain c then (cutLiteral? cs).map (consCut c) else none

/-- A text up to three closing single quotes, and the rest. -/
def cutLiteralLines? : List Char → Option (List Char × List Char)
  | [] => none
  | '\'' :: '\'' :: '\'' :: '\'' :: '\'' :: cs => some (['\'', '\''], cs)
  | '\'' :: '\'' :: '\'' :: '\'' :: cs => some (['\''], cs)
  | '\'' :: '\'' :: '\'' :: cs => some ([], cs)
  | c :: cs =>
    if c == '\n' || isPlain c then (cutLiteralLines? cs).map (consCut c) else none

/-- The text without the end of a line at its front. -/
def dropLineEnd : List Char → List Char
  | '\n' :: cs => cs
  | cs => cs

/-- The quoted text at the front, and the rest. -/
def cutQuoted? : List Char → Option (List Char × List Char)
  | '"' :: '"' :: '"' :: cs => cutBasicLinesFor (cs.length + 1) (dropLineEnd cs)
  | '\'' :: '\'' :: '\'' :: cs => cutLiteralLines? (dropLineEnd cs)
  | '"' :: cs => cutBasicFor (cs.length + 1) cs
  | '\'' :: cs => cutLiteral? cs
  | _ => none

/-- The character may stand in a bare key. -/
def isBareKey (c : Char) : Bool := c.isAlphanum || c == '_' || c == '-'

/-- The key at the front, and the rest. -/
def cutKey? : List Char → Option (String × List Char)
  | '"' :: cs => (cutBasicFor (cs.length + 1) cs).map fun (k, rest) => (String.ofList k, rest)
  | '\'' :: cs => (cutLiteral? cs).map fun (k, rest) => (String.ofList k, rest)
  | cs =>
    let bare := cs.takeWhile isBareKey
    if bare.isEmpty then none else some (String.ofList bare, cs.dropWhile isBareKey)

/-- A path has at most this many keys. -/
def pathBound : Nat := 79

/-- A path of at most `count` keys at the front, blanks around it included, and the rest. -/
def cutPathFor : Nat → List Char → Option (List String × List Char)
  | 0, _ => none
  | count + 1, cs => do
    let (key, rest) ← cutKey? (skipSpace cs)
    match skipSpace rest with
    | '.' :: rest =>
      let (path, rest) ← cutPathFor count rest
      return (key :: path, rest)
    | rest => return ([key], rest)

/-- The path of keys at the front, and the rest. -/
def cutPath? (cs : List Char) : Option (List String × List Char) := cutPathFor pathBound cs

end Scriptorium.Toml

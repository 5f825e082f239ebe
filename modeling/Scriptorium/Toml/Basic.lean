import Scriptorium.Decimal.Text

/-!
# TOML values

A document is a table of values by key, in the order in which the keys were
first written. Dates and times are kept in their normal spelling.
-/

namespace Scriptorium

/-- A value of a TOML document. -/
inductive Toml where
  | boolean (b : Bool)
  | integer (n : Int)
  | decimal (d : Decimal)
  | text (s : String)
  | date (spelling : String)
  | array (items : List Toml)
  | table (entries : List (String × Toml))
  deriving Repr

namespace Toml

/-- A blank within a line. -/
def isSpace (c : Char) : Bool := c == ' ' || c == '\t'

/-- The text behind leading blanks of a line. -/
def skipSpace (cs : List Char) : List Char := cs.dropWhile isSpace

/-- The character may stand in a comment or between quotes: a tab, or no control character. -/
def isPlain (c : Char) : Bool := c == '\t' || (32 ≤ c.toNat && c.toNat ≠ 127)

/-- The text behind a comment, which reaches to the end of the line. -/
def skipComment : List Char → List Char
  | '#' :: cs => cs.dropWhile isPlain
  | cs => cs

/-- The text behind the end of a line, blanks and a comment before it included. -/
def endLine? (cs : List Char) : Option (List Char) :=
  match skipComment (skipSpace cs) with
  | [] => some []
  | '\n' :: rest => some rest
  | _ => none

/-- The text behind blanks, ends of lines and comments. `comment` tells that the text begins
inside a comment. -/
def skipFiller? (comment : Bool) : List Char → Option (List Char)
  | [] => some []
  | c :: cs =>
    if c = '\n' then skipFiller? false cs
    else if comment then
      if isPlain c then skipFiller? true cs else none
    else if isSpace c then skipFiller? false cs
    else if c = '#' then skipFiller? true cs
    else some (c :: cs)

/-- The text with every end of a line spelled as a line feed. -/
def normalized : List Char → List Char
  | '\r' :: '\n' :: cs => '\n' :: normalized cs
  | c :: cs => c :: normalized cs
  | [] => []

end Toml

end Scriptorium

import Scriptorium.Text.Blank

/-!
# Tokens of an expression

An expression is cut into tokens at its blanks. Between single quotes a space
or a tab does not cut, while every other blank does. Two private-use characters
are read as a space and a tab wherever they stand. An expression of blanks is
one empty token.
-/

namespace Scriptorium.Expression

/-- The private-use character that is read as a space. -/
def spaceMark : Char := Char.ofNat 0xE000

/-- The private-use character that is read as a tab. -/
def tabMark : Char := Char.ofNat 0xE001

/-- A character of a token as it is read. -/
def readMark (c : Char) : Char :=
  if c = spaceMark then ' ' else if c = tabMark then '\t' else c

/-- The character cuts, given whether it stands between quotes. -/
def cuts (inQuotes : Bool) (c : Char) : Bool :=
  Text.isBlank c && !(inQuotes && (c = ' ' || c = '\t'))

/-- The part before the first cut, and the tokens after it. -/
def cutTokens (inQuotes : Bool) : List Char → List Char × List (List Char)
  | [] => ([], [])
  | c :: cs =>
    let (w, ws) := cutTokens (if c = '\'' then !inQuotes else inQuotes) cs
    if cuts inQuotes c then ([], Text.consWord w ws) else (readMark c :: w, ws)

/-- The tokens of an expression, at least one. -/
def tokenize (expression : List Char) : List (List Char) :=
  let (w, ws) := cutTokens false (Text.trim expression)
  match Text.consWord w ws with
  | [] => [[]]
  | tokens => tokens

/-- The content of a token in single quotes that has no quote inside. -/
def stringLiteral? : List Char → Option (List Char)
  | '\'' :: cs =>
    match cs.getLast? with
    | some '\'' =>
      let content := cs.dropLast
      if content.contains '\'' then none else some content
    | _ => none
  | _ => none

end Scriptorium.Expression

import Scriptorium.Toml.Basic

/-!
# Writing texts of TOML documents

A text is written in the first quoting that shows it without an escape: between
double quotes, between single quotes, between three double quotes, between three
single quotes. A text that none of them shows is written with escapes between
double quotes, three of them when it has several lines. A tab between double
quotes is written as an escape too, although it need not be.

Behind three quotes an end of a line is dropped by every reader, so a text of
several lines begins on a line of its own.
-/

namespace Scriptorium.Toml

/-- How a text is quoted. -/
inductive Quoting where
  | basic
  | literal
  | basicLines
  | literalLines
  deriving DecidableEq, Repr

/-- The length of the longest run of a character. -/
def longestRun (c : Char) (cs : List Char) : Nat :=
  (cs.foldl (fun (longest, run) d =>
    let run := if d = c then run + 1 else 0
    (max longest run, run)) (0, 0)).1

namespace Quoting

/-- The text may extend over several lines. -/
def spansLines : Quoting → Bool
  | .basicLines | .literalLines => true
  | .basic | .literal => false

/-- Backslashes begin escapes. -/
def hasEscapes : Quoting → Bool
  | .basic | .basicLines => true
  | .literal | .literalLines => false

/-- What stands on either side of the text. -/
def delimiter : Quoting → List Char
  | .basic => ['"']
  | .literal => ['\'']
  | .basicLines => ['"', '"', '"']
  | .literalLines => ['\'', '\'', '\'']

/-- The quoting shows the text as it is. -/
def shows (q : Quoting) (cs : List Char) : Bool :=
  let mark := if q.hasEscapes then '"' else '\''
  cs.all (fun c => isPlain c || c == '\n' && q.spansLines) &&
    !(q.hasEscapes && cs.contains '\\') &&
    longestRun mark cs ≤ if q.spansLines then 2 else 0

/-- All quotings, the preferred ones first. -/
def all : List Quoting := [.basic, .literal, .basicLines, .literalLines]

/-- The quoting of a text. -/
def ofText (cs : List Char) : Quoting :=
  (all.find? (·.shows cs)).getD (if cs.contains '\n' then .basicLines else .basic)

end Quoting

/-- A hexadecimal digit in upper case. -/
def upperHexDigit (n : Nat) : Char :=
  if n < 10 then Char.ofNat ('0'.toNat + n) else Char.ofNat ('A'.toNat + (n - 10))

/-- A character between double quotes. Backslashes and control characters are escaped. -/
def escapeChar (c : Char) : List Char :=
  match c with
  | '\\' => ['\\', '\\']
  | '\n' => ['\\', 'n']
  | '\r' => ['\\', 'r']
  | '\t' => ['\\', 't']
  | _ =>
    if c.toNat = 8 then ['\\', 'b']
    else if c.toNat = 12 then ['\\', 'f']
    else if c.toNat < 32 || c.toNat = 127 then
      ['\\', 'u', '0', '0', upperHexDigit (c.toNat / 16), upperHexDigit (c.toNat % 16)]
    else [c]

/-- A text between double quotes behind `run` double quotes that are not escaped. Where the
text may span lines, its line feeds and up to two double quotes in a row stand for themselves. -/
def escapeFrom (lines : Bool) : Nat → List Char → List Char
  | _, [] => []
  | run, c :: cs =>
    if c = '"' then
      if lines && run < 2 then '"' :: escapeFrom lines (run + 1) cs
      else '\\' :: '"' :: escapeFrom lines 0 cs
    else if c = '\n' && lines then '\n' :: escapeFrom lines 0 cs
    else escapeChar c ++ escapeFrom lines 0 cs

/-- A text with its quotes. -/
def quoted (s : String) : String :=
  let cs := s.toList
  let q := Quoting.ofText cs
  let start := if q.spansLines && cs.contains '\n' then ['\n'] else []
  let body := if q.hasEscapes then escapeFrom q.spansLines 0 cs else cs
  String.ofList (q.delimiter ++ start ++ body ++ q.delimiter)

end Scriptorium.Toml

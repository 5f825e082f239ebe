import Scriptorium.Grammar.Rule
import Scriptorium.Text.Numeral

/-!
# Scripts as they are written

A script is a list of calls and branches. A call names what it does and has
texts as arguments; a branch has a call as its condition and a list of
statements for either outcome. The words `if` and `else` are identifiers too, so
a call may bear them as its name wherever it cannot be read as a branch.

Space between the parts of a script is any run of blanks, of comments from two
slashes to the end of the line, and of comments between `/*` and `*/`.
-/

namespace Scriptorium

/-- A call with the line on which it begins. -/
structure Call where
  name : String
  args : List String
  line : Nat
  deriving DecidableEq, Repr

/-- A statement of a script. -/
inductive Statement where
  | call (c : Call)
  | branch (condition : Call) (thenBranch elseBranch : List Statement)
  deriving Repr

namespace Script

open Grammar Grammar.Rule

/-- A blank between the parts of a script. -/
def isSpace (c : Char) : Bool := c == ' ' || c == '\t' || c == '\r' || c == '\n'

/-- The text behind the end of a comment between `/*` and `*/`, if it ends. -/
def endOfComment? : List Char → Option (List Char)
  | '*' :: '/' :: cs => some cs
  | _ :: cs => endOfComment? cs
  | [] => none

/-- The text behind one blank or comment at the front, if there is one. -/
def cutSpace? : List Char → Option (List Char)
  | '/' :: '/' :: cs => some (cs.dropWhile (· ≠ '\n'))
  | '/' :: '*' :: cs => endOfComment? cs
  | c :: cs => if isSpace c then some cs else none
  | [] => none

/-- The text behind at most `fuel` blanks and comments. -/
def skipSpaceFor : Nat → List Char → List Char
  | 0, cs => cs
  | fuel + 1, cs =>
    match cutSpace? cs with
    | some rest => skipSpaceFor fuel rest
    | none => cs

/-- The text behind all leading blanks and comments. -/
def skipSpace (cs : List Char) : List Char := skipSpaceFor cs.length cs

/-- Leading blanks and comments are passed over. -/
def space : Rule Unit := fun cs => ⟨none, some ((), skipSpace cs)⟩

/-- A rule behind blanks and comments. -/
def spaced {α : Type} (p : Rule α) : Rule α := andThen space fun _ => p

/-- A fixed word behind blanks and comments. -/
def spacedWord (w : String) : Rule Unit := spaced (word w.toList)

/-- The rule as often as it succeeds, with space between two applications. -/
def spacedMany {α : Type} (p : Rule α) : Rule (List α) :=
  orElse (andThen p fun a => map (a :: ·) (many (spaced p))) (accept [])

/-- The character that a backslash and `c` stand for. -/
def escaped (c : Char) : Char :=
  if c = 'n' then '\n' else if c = 't' then '\t' else c

/-- Content of a quoted text up to the closing quote. -/
def cutContent : List Char → List Char × List Char
  | '\\' :: c :: cs =>
    let (content, rest) := cutContent cs
    (escaped c :: content, rest)
  | c :: cs =>
    if c = '"' || c = '\\' then ([], c :: cs)
    else
      let (content, rest) := cutContent cs
      (c :: content, rest)
  | [] => ([], [])

/-- A text between quotes. -/
def quoted : Rule String := named <|
  andThen (word ['"']) fun _ =>
  andThen (cut fun cs => some (cutContent cs)) fun content =>
  map (fun _ => String.ofList content) (word ['"'])

/-- The identifier at the front of a text. -/
def cutIdentifier : List Char → Option (String × List Char)
  | [] => none
  | c :: cs =>
    if Text.isIdentifierStart c then
      some (String.ofList (c :: cs.takeWhile Text.isIdentifierPart),
        cs.dropWhile Text.isIdentifierPart)
    else none

/-- An identifier. -/
def identifier : Rule String := named (cut cutIdentifier)

/-- The arguments of a call, separated by commas. -/
def arguments : Rule (List String) :=
  orElse
    (andThen quoted fun first =>
      map (first :: ·) <| spaced <| spacedMany <|
        andThen (word [',']) fun _ => spaced quoted)
    (accept [])

/-- A call. `lineOf` tells the line at which so many characters are left. -/
def call (lineOf : Nat → Nat) : Rule Call := named fun cs =>
  (andThen identifier fun name =>
    andThen (spacedWord "(") fun _ =>
    andThen (spaced arguments) fun args =>
    map (fun _ => ⟨name, args, lineOf cs.length⟩) (spacedWord ")")) cs

/-- A call with the semicolon behind it. -/
def callStatement (lineOf : Nat → Nat) : Rule Statement := named <|
  andThen (call lineOf) fun c => map (fun _ => .call c) (spacedWord ";")

/-- Statements between braces. -/
def block (statement : Rule Statement) : Rule (List Statement) := named <|
  andThen (word ['{']) fun _ =>
  andThen (spaced (spacedMany statement)) fun body =>
  map (fun _ => body) (spacedWord "\x7d")

/-- A branch whose blocks hold statements of the given rule. What follows `else` is a branch
of its own or a block. -/
def branch (lineOf : Nat → Nat) (statement nested : Rule Statement) : Rule Statement := named <|
  andThen (word "if".toList) fun _ =>
  andThen (spacedWord "(") fun _ =>
  andThen (spaced (call lineOf)) fun condition =>
  andThen (spacedWord ")") fun _ =>
  andThen (spaced (block statement)) fun thenBranch =>
  map (fun elseBranch => .branch condition thenBranch (elseBranch.getD [])) <| spaced <|
    optional <|
      andThen (word "else".toList) fun _ =>
      spaced (orElse (map (fun b => [b]) nested) (block statement))

mutual

/-- A branch nested at most `fuel` levels deep. -/
def branchFor (lineOf : Nat → Nat) : Nat → Rule Statement
  | 0 => fail
  | fuel + 1 => branch lineOf (statementFor lineOf fuel) (branchFor lineOf fuel)

/-- A statement nested at most `fuel` levels deep. -/
def statementFor (lineOf : Nat → Nat) : Nat → Rule Statement
  | 0 => fail
  | fuel + 1 => orElse (branchFor lineOf fuel) (callStatement lineOf)

end

/-- A whole script. -/
def script (text : List Char) : Rule (List Statement) := named <|
  let lineOf := fun remaining => (Position.ofRemaining text remaining).line
  andThen (spaced (spacedMany (statementFor lineOf (2 * text.length + 2)))) fun body =>
  map (fun _ => body) (spaced endOfText)

/-- The statements that a text spells. -/
def parseScript (text : List Char) : Except Position (List Statement) :=
  parse (script text) text

end Script

end Scriptorium

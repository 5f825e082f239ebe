import Scriptorium.Grammar.Rule
import Scriptorium.Target.Formula

/-!
# The grammar of target code

One statement `return …;` with blanks allowed between its parts. Integers,
decimals and strings are computed with the operations of their kind, truth
values with `&&` and `||`; operands of different kinds never meet, because each
kind has operand rules of its own. The layers of the grammar are the layers of
a formula.
-/

namespace Scriptorium.Target

open Grammar Grammar.Rule

/-- A blank between the parts of target code. -/
def isSpace (c : Char) : Bool := c == ' ' || c == '\t' || c == '\r' || c == '\n'

/-- Leading blanks are passed over. -/
def space : Rule Unit := fun cs => ⟨none, some ((), cs.dropWhile isSpace)⟩

/-- A rule behind blanks. -/
def spaced {α : Type} (p : Rule α) : Rule α := andThen space fun _ => p

/-- A fixed word behind blanks. -/
def spacedWord (w : String) : Rule Unit := spaced (word w.toList)

/-- The rule as often as it succeeds, with blanks between two applications. -/
def spacedMany {α : Type} (p : Rule α) : Rule (List α) :=
  orElse (andThen p fun a => map (a :: ·) (many (spaced p))) (accept [])

/-- Content of a quoted text up to the closing quote. A backslash stands in front of a quote
or a backslash and nowhere else. -/
def cutContent : List Char → List Char × List Char
  | '\\' :: '"' :: cs =>
    let (content, rest) := cutContent cs
    ('"' :: content, rest)
  | '\\' :: '\\' :: cs =>
    let (content, rest) := cutContent cs
    ('\\' :: content, rest)
  | c :: cs =>
    if c = '"' || c = '\\' then ([], c :: cs)
    else
      let (content, rest) := cutContent cs
      (c :: content, rest)
  | [] => ([], [])

/-- A text between quotes. -/
def quoted : Rule (List Char) := named <|
  andThen (word ['"']) fun _ =>
  andThen (cut fun cs => some (cutContent cs)) fun content =>
  map (fun _ => content) (word ['"'])

/-- A run of at least one digit. -/
def digits : Rule (List Char) := named <| cut fun cs =>
  let ds := cs.takeWhile Char.isDigit
  if ds.isEmpty then none else some (ds, cs.dropWhile Char.isDigit)

/-- A step `.word(argument)`. -/
def stepRule {α : Type} (w : String) (argument : Rule α) : Rule α := named <|
  andThen (word ['.']) fun _ =>
  andThen (spacedWord w) fun _ =>
  andThen (spacedWord "(") fun _ =>
  andThen (spaced argument) fun a =>
  map (fun _ => a) (spacedWord ")")

/-- A step to a field or an element. -/
def step : Rule WrittenStep :=
  orElse (map .field (stepRule "field" quoted)) (map .index (stepRule "at" digits))

/-- A variable and the steps taken from it. -/
def access : Rule WrittenAccess := named <|
  andThen (word "var".toList) fun _ =>
  andThen (spacedWord "(") fun _ =>
  andThen (spaced quoted) fun head =>
  andThen (spacedWord ")") fun _ =>
  map (fun steps => ⟨head, steps⟩) (spaced (spacedMany step))

/-- A read of a primitive value. -/
def read (kind : PrimitiveKind) : Rule Operand := named <|
  andThen access fun a =>
  andThen (spacedWord ".") fun _ =>
  andThen (spacedWord kind.accessor) fun _ =>
  andThen (spacedWord "(") fun _ =>
  map (fun _ => .read a kind) (spacedWord ")")

/-- The integer numeral at the front. -/
def cutInteger (cs : List Char) : Option (List Char × List Char) :=
  let (sign, body) := match cs with
    | '-' :: cs => (['-'], cs)
    | cs => ([], cs)
  let ds := body.takeWhile Char.isDigit
  if ds.isEmpty then none else some (sign ++ ds, body.dropWhile Char.isDigit)

/-- The decimal numeral at the front. -/
def cutDecimal (cs : List Char) : Option (List Char × List Char) :=
  let (sign, body) := match cs with
    | '-' :: cs => (['-'], cs)
    | cs => ([], cs)
  let whole := body.takeWhile Char.isDigit
  match body.dropWhile Char.isDigit with
  | '.' :: cs =>
    let ds := cs.takeWhile Char.isDigit
    if ds.isEmpty then none
    else some (sign ++ whole ++ '.' :: ds, cs.dropWhile Char.isDigit)
  | _ => none

/-- A truth value. -/
def truth : Rule Bool := named <|
  orElse (map (fun _ => true) (word "true".toList)) (map (fun _ => false) (word "false".toList))

/-- A literal of a primitive kind. -/
def literal : PrimitiveKind → Rule Operand
  | .integer => map .integer (named (cut cutInteger))
  | .decimal => map .decimal (named (cut cutDecimal))
  | .boolean => map .boolean truth
  | .string => map .string quoted

/-- An operand of a primitive kind: a read or a literal. -/
def operand (kind : PrimitiveKind) : Rule Operand := orElse (read kind) (literal kind)

/-- The symbol of an operation. -/
def symbol (op : BinaryOp) : Rule BinaryOp := named (map (fun _ => op) (word op.symbol.toList))

/-- The first of several operations whose symbol is there. -/
def anySymbol : List BinaryOp → Rule BinaryOp
  | [] => fail
  | op :: ops => orElse (symbol op) (anySymbol ops)

/-- The operations that join the operands of a group. -/
def tightOps : PrimitiveKind → List BinaryOp
  | .integer | .decimal => [.mul, .div]
  | .boolean => [.and]
  | .string => []

/-- The operations that join groups. -/
def looseOps : PrimitiveKind → List BinaryOp
  | .integer | .decimal => [.add, .sub]
  | .boolean => [.or]
  | .string => [.add]

/-- Items with operations between them. -/
def chain {α : Type} (item : Rule α) (ops : List BinaryOp) : Rule (Chain α) := named <|
  andThen item fun first =>
  map (fun rest => ⟨first, rest⟩) <| spaced <| spacedMany <|
    andThen (anySymbol ops) fun op => map (fun a => (op, a)) (spaced item)

/-- The operands of one kind with their operations in two layers. Strings have one layer, so
each operand is a group of its own. -/
def groups (kind : PrimitiveKind) : Rule (Chain (Chain Operand)) :=
  match kind with
  | .string => chain (map (fun o => ⟨o, []⟩) (operand .string)) (looseOps .string)
  | _ => chain (chain (operand kind) (tightOps kind)) (looseOps kind)

/-- A value computed from operands of one kind. -/
def computed (kind : PrimitiveKind) : Rule Formula := named <|
  andThen (word kind.accessor.toList) fun _ =>
  andThen (spacedWord "(") fun _ =>
  andThen (spaced (groups kind)) fun gs =>
  map (fun _ => .computed kind gs) (spacedWord ")")

/-- The value that a statement returns. -/
def value : Rule Formula :=
  orElse (computed .integer) <| orElse (computed .decimal) <| orElse (computed .boolean) <|
  orElse (computed .string) <| orElse (named (map (fun _ => .null) (word "null".toList))) <|
  map .reference access

/-- A statement of target code and nothing else. -/
def statement : Rule Formula := named <|
  andThen (spacedWord "return") fun _ =>
  andThen (spaced value) fun v =>
  andThen (spacedWord ";") fun _ =>
  map (fun _ => v) (spaced endOfText)

/-- Why a text is not target code. -/
inductive Malformed where
  | position (p : Position)
  | range (e : RangeError)
  deriving DecidableEq, Repr

/-- The message about a text that is not target code. -/
def Malformed.message : Malformed → String
  | .position p => p.message
  | .range e => e.message

/-- The formula that a text spells. -/
def parseFormula (text : List Char) : Except Position Formula := parse statement text

/-- The expression that a text spells. -/
def parseTarget (text : List Char) : Except Malformed TargetExpr :=
  match parseFormula text with
  | .error p => .error (.position p)
  | .ok formula =>
    match formula.expr with
    | .error e => .error (.range e)
    | .ok expr => .ok expr

end Scriptorium.Target

/-!
# Rules of a grammar with ordered choice

A rule takes a part off the front of a text or fails. An alternative is tried
only when the one before it fails, and a repetition takes as much as it can.
Every attempt also reports how few characters were left where a rule with a
name failed, in whichever alternative that was: the place at which a text that
is refused as a whole is said to be wrong. Rules without a name, such as fixed
words, leave no such mark.
-/

namespace Scriptorium.Grammar

/-- The smaller of two numbers of characters, where they are known. -/
def nearer : Option Nat → Option Nat → Option Nat
  | some m, some n => some (min m n)
  | some m, none => some m
  | none, n => n

/-- What became of an attempt to apply a rule. -/
structure Attempt (α : Type) where
  /-- The fewest characters left where a named rule failed. -/
  stuck : Option Nat
  /-- What was taken and the rest of the text, unless the rule failed. -/
  result : Option (α × List Char)
  deriving Repr

/-- A rule of the grammar. -/
abbrev Rule (α : Type) := List Char → Attempt α

namespace Rule

variable {α β : Type}

/-- Takes nothing. -/
def accept (a : α) : Rule α := fun cs => ⟨none, some (a, cs)⟩

/-- Takes nothing and fails. -/
def fail : Rule α := fun _ => ⟨none, none⟩

/-- One rule, then another on the rest. -/
def andThen (p : Rule α) (f : α → Rule β) : Rule β := fun cs =>
  match p cs with
  | ⟨stuck, none⟩ => ⟨stuck, none⟩
  | ⟨stuck, some (a, rest)⟩ =>
    let next := f a rest
    ⟨nearer stuck next.stuck, next.result⟩

/-- The first rule, or the second where the first fails. -/
def orElse (p q : Rule α) : Rule α := fun cs =>
  match p cs with
  | ⟨stuck, none⟩ =>
    let other := q cs
    ⟨nearer stuck other.stuck, other.result⟩
  | attempt => attempt

/-- The rule with a name: its failure marks the place where it was tried. -/
def named (p : Rule α) : Rule α := fun cs =>
  match p cs with
  | ⟨stuck, none⟩ => ⟨nearer stuck (some cs.length), none⟩
  | attempt => attempt

/-- The rule with a name, as it is seen when the rules within it leave no mark. -/
def atomic (p : Rule α) : Rule α := fun cs =>
  match (p cs).result with
  | none => ⟨some cs.length, none⟩
  | some taken => ⟨none, some taken⟩

/-- The result of a rule replaced by its image. -/
def map (f : α → β) (p : Rule α) : Rule β := andThen p fun a => accept (f a)

/-- A fixed word. -/
def word (w : List Char) : Rule Unit := fun cs =>
  if w.isPrefixOf cs then ⟨none, some ((), cs.drop w.length)⟩ else ⟨none, none⟩

/-- What a test of the text's front takes, if it takes anything. -/
def cut (f : List Char → Option (α × List Char)) : Rule α := fun cs => ⟨none, f cs⟩

/-- The rule, or nothing where it fails. -/
def optional (p : Rule α) : Rule (Option α) := orElse (map some p) (accept none)

/-- The rule as often as it succeeds and takes something. The attempt that ends the repetition
leaves its mark too. -/
def many (p : Rule α) (cs : List Char) : Attempt (List α) :=
  match p cs with
  | ⟨stuck, none⟩ => ⟨stuck, some ([], cs)⟩
  | ⟨stuck, some (a, rest)⟩ =>
    if _shorter : rest.length < cs.length then
      let next := many p rest
      ⟨nearer stuck next.stuck, next.result.map fun (as, rest) => (a :: as, rest)⟩
    else ⟨stuck, some ([], cs)⟩
termination_by cs.length

/-- The end of the text. -/
def endOfText : Rule Unit := named fun cs => ⟨none, if cs.isEmpty then some ((), []) else none⟩

end Rule

/-- A place in a text. Lines and columns count from one, columns in characters. -/
structure Position where
  line : Nat
  column : Nat
  deriving DecidableEq, Repr

namespace Position

/-- The place after one more character. -/
def after (p : Position) (c : Char) : Position :=
  if c = '\n' then ⟨p.line + 1, 1⟩ else ⟨p.line, p.column + 1⟩

/-- The place behind a text. -/
def behind (cs : List Char) : Position := cs.foldl after ⟨1, 1⟩

/-- The place in a text at which this many characters are left. -/
def ofRemaining (text : List Char) (remaining : Nat) : Position :=
  behind (text.take (text.length - remaining))

/-- The place as messages give it. -/
def message (p : Position) : String := s!" --> {p.line}:{p.column}"

end Position

/-- Applies a rule to a whole text. A refused text yields the furthest place at which a named
rule failed. -/
def parse {α : Type} (p : Rule α) (text : List Char) : Except Position α :=
  match p text with
  | ⟨_, some (a, _)⟩ => .ok a
  | ⟨stuck, none⟩ => .error (Position.ofRemaining text (stuck.getD text.length))

end Scriptorium.Grammar

import Scriptorium.Name.Sanitize
import Scriptorium.Text.Blank
import Scriptorium.Text.Split

/-!
# Qualified names

A unit of compiled code is addressed by a path under one of two roots, scripts
and record types, and by a discriminator when it is an expression that belongs
to the unit at the path. Every script has a package of its own, so that the
package covers the script and its expressions and nothing else of its group.

Names written by a person have group levels separated by a double colon. A
qualified name is well formed when no segment and no discriminator is empty;
exactly the well-formed ones can be read back from their text.
-/

namespace Scriptorium

/-- What a unit holds. -/
inductive UnitKind where
  | script
  | expression
  | recordType
  deriving DecidableEq, Repr

/-- The kind as it is written in messages. -/
def UnitKind.text : UnitKind → String
  | .script => "script"
  | .expression => "expression"
  | .recordType => "record type"

/-- The two hierarchies of names. Record types come first in the order of names. -/
inductive Root where
  | record
  | script
  deriving DecidableEq, Repr, Ord

instance : Std.TransOrd Root where
  eq_swap {a b} := by cases a <;> cases b <;> rfl
  isLE_trans {a b c} := by cases a <;> cases b <;> cases c <;> decide

instance : Std.LawfulEqOrd Root where
  compare_self {a} := by cases a <;> rfl
  eq_of_compare {a b} := by cases a <;> cases b <;> decide

/-- The first segment of a name's text. -/
def Root.text : Root → String
  | .record => "record"
  | .script => "script"

/-- The root with this text. -/
def Root.ofText? (s : String) : Option Root :=
  if s = "script" then some .script
  else if s = "record" then some .record
  else none

/-- The address of one unit. -/
structure QualifiedName where
  root : Root
  path : List String
  discriminator : Option String
  deriving DecidableEq, Repr

/-- A path whose units, with the expressions they own, are handled together. -/
structure Package where
  root : Root
  path : List String
  deriving DecidableEq, Repr

namespace Name

/-- The separator of group levels in names written by a person. -/
def groupSeparator : List Char := [':', ':']

/-- The separator in front of a discriminator. -/
def discriminatorSeparator : List Char := ['$', '$']

/-- The only group level of names without a group. -/
def defaultGroup : String := "default_group"

/-- The group in front of the last double colon, if there is one, and the simple name. -/
def splitGroup (cs : List Char) : Option (List Char) × List Char :=
  match Text.splitLast? groupSeparator cs with
  | some (group, simple) => (some group, simple)
  | none => (none, cs)

/-- The pieces between double colons, found from left to right. -/
def splitLevels : List Char → List Char × List (List Char)
  | ':' :: ':' :: cs =>
    let (w, ws) := splitLevels cs
    ([], w :: ws)
  | c :: cs =>
    let (w, ws) := splitLevels cs
    (c :: w, ws)
  | [] => ([], [])

/-- The segment of one group level. -/
def levelSegment (cs : List Char) : String :=
  String.ofList ((sanitize (Text.trim cs)).map Char.toLower)

/-- The segments of a group. A blank group is the default one. -/
def groupSegments (group : Option (List Char)) : List String :=
  match group.map Text.trim with
  | none | some [] => [defaultGroup]
  | some cs =>
    let (w, ws) := splitLevels cs
    levelSegment w :: ws.map levelSegment

/-- The segments of a path with points between them. -/
def joinSegments (root : Root) (path : List String) : List Char :=
  Text.joinWith ['.'] (root.text.toList, path.map String.toList)

/-- Whitespace removed and symbols replaced by their tokens. -/
def expressionDiscriminator (expression : String) : String :=
  String.ofList (sanitize (Text.compact expression.toList))

end Name

namespace QualifiedName

/-- The name of a script. Its package ends with the simple name in lower case. -/
def script (name : String) : QualifiedName :=
  let (group, simple) := Name.splitGroup (Text.trim name.toList)
  let simple := Name.sanitize simple
  { root := .script
    path := Name.groupSegments group ++
      [String.ofList (simple.map Char.toLower), String.ofList simple]
    discriminator := none }

/-- The name of a record type. -/
def record (name : String) : QualifiedName :=
  let (group, simple) := Name.splitGroup (Text.trim name.toList)
  { root := .record
    path := Name.groupSegments group ++ [String.ofList (Name.sanitize simple)]
    discriminator := none }

/-- The name of an expression that belongs to this unit. -/
def expression (name : QualifiedName) (discriminator : String) : QualifiedName :=
  { name with discriminator := some discriminator }

/-- The text of a name: its segments between points, then the discriminator. -/
def text (name : QualifiedName) : String :=
  let segments := Name.joinSegments name.root name.path
  String.ofList <| match name.discriminator with
    | none => segments
    | some d => segments ++ Name.discriminatorSeparator ++ d.toList

instance : ToString QualifiedName := ⟨text⟩

/-- The name with this text, unless a segment or the discriminator would be empty or the
first segment is no root. -/
def parse? (s : String) : Option QualifiedName :=
  let cut := match Text.splitFirst? Name.discriminatorSeparator s.toList with
    | none => some (s.toList, none)
    | some (_, []) => none
    | some (path, d) => some (path, some (String.ofList d))
  cut.bind fun (path, discriminator) =>
    match Text.splitAt '.' path with
    | (_, []) => none
    | (first, rest) =>
      if rest.any List.isEmpty then none
      else
        (Root.ofText? (String.ofList first)).map fun root =>
          { root, path := rest.map String.ofList, discriminator }

/-- The kind of unit that the name denotes. -/
def kind (name : QualifiedName) : UnitKind :=
  match name.discriminator, name.root with
  | some _, _ => .expression
  | none, .record => .recordType
  | none, .script => .script

/-- No segment and no discriminator is empty. -/
def isWellFormed (name : QualifiedName) : Bool :=
  name.path.all (· ≠ "") && name.discriminator.all (· ≠ "")

/-- The last segment. -/
def simpleName (name : QualifiedName) : String :=
  name.path.getLast?.getD name.root.text

/-- The simple name in the words of the person who chose it. -/
def humanName (name : QualifiedName) : String :=
  String.ofList (Name.desanitize name.simpleName.toList)

/-- The package that covers this unit and the expressions it owns. -/
def package (name : QualifiedName) : Package := ⟨name.root, name.path⟩

/-- Names are ordered by their segments, then by discriminator, none before any. -/
instance : Ord QualifiedName where
  compare := compareLex (compareOn root)
    (compareLex (compareOn path) (compareOn discriminator))

theorem compare_eq (a b : QualifiedName) :
    compare a b = (compare a.root b.root).then
      ((compare a.path b.path).then (compare a.discriminator b.discriminator)) := rfl

instance : Std.TransOrd QualifiedName :=
  inferInstanceAs (Std.TransCmp (compareLex (compareOn root)
    (compareLex (compareOn path) (compareOn discriminator))))

instance : Std.LawfulEqOrd QualifiedName where
  eq_of_compare {a b} h := by
    simp only [compare_eq, Ordering.then_eq_eq] at h
    obtain ⟨hroot, hpath, hdisc⟩ := h
    cases a; cases b
    simp only [QualifiedName.mk.injEq]
    exact ⟨Std.LawfulEqOrd.eq_of_compare hroot, Std.LawfulEqOrd.eq_of_compare hpath,
      Std.LawfulEqOrd.eq_of_compare hdisc⟩

end QualifiedName

namespace Package

/-- The text of a package: its segments between points. -/
def text (p : Package) : String := String.ofList (Name.joinSegments p.root p.path)

/-- The package's segments are the first ones of the name. -/
def covers (p : Package) (name : QualifiedName) : Bool :=
  p.root = name.root && p.path.isPrefixOf name.path

end Package

end Scriptorium

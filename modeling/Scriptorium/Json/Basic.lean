/-!
# JSON documents

A document is kept as it is written: a number holds its numeral and a string
the text between its quotes, with the escapes in place. What a numeral or an
escaped text denotes is decided where it is used, so a part of a document that
nobody looks at can neither overflow nor be ill paired. Reading therefore
checks spelling alone, and writing is exact.
-/

namespace Scriptorium

/-- A JSON document with its numerals and escaped texts as written. -/
inductive Json where
  | null
  | boolean (b : Bool)
  | number (numeral : List Char)
  | string (escaped : List Char)
  | array (items : List Json)
  | object (members : List (List Char × Json))
  deriving Repr, Inhabited

namespace Json

mutual

/-- The number of containers inside one another. -/
def depth : Json → Nat
  | array items => depthItems items + 1
  | object members => depthMembers members + 1
  | _ => 0

/-- The largest depth of several documents. -/
def depthItems : List Json → Nat
  | [] => 0
  | j :: js => max (depth j) (depthItems js)

/-- The largest depth of the members of an object. -/
def depthMembers : List (List Char × Json) → Nat
  | [] => 0
  | (_, j) :: rest => max (depth j) (depthMembers rest)

end

/-- A text between quotes. -/
def quoted (escaped : List Char) : List Char := '"' :: escaped ++ ['"']

mutual

/-- The document without any space between its parts. -/
def write : Json → List Char
  | null => ['n', 'u', 'l', 'l']
  | boolean true => ['t', 'r', 'u', 'e']
  | boolean false => ['f', 'a', 'l', 's', 'e']
  | number numeral => numeral
  | string escaped => quoted escaped
  | array items => '[' :: writeItems items ++ [']']
  | object members => '{' :: writeMembers members ++ ['}']

/-- Documents separated by commas. -/
def writeItems : List Json → List Char
  | [] => []
  | [j] => write j
  | j :: js => write j ++ ',' :: writeItems js

/-- Members of an object separated by commas. -/
def writeMembers : List (List Char × Json) → List Char
  | [] => []
  | [(key, j)] => quoted key ++ ':' :: write j
  | (key, j) :: rest => quoted key ++ ':' :: write j ++ ',' :: writeMembers rest

end

/-- A new line and the space in front of a part at this level. -/
def newLine (level : Nat) : List Char := '\n' :: List.replicate (2 * level) ' '

mutual

/-- The document over several lines, each level indented by two spaces. -/
def pretty (level : Nat) : Json → List Char
  | array [] => ['[', ']']
  | array items => '[' :: prettyItems (level + 1) items ++ newLine level ++ [']']
  | object [] => ['{', '}']
  | object members => '{' :: prettyMembers (level + 1) members ++ newLine level ++ ['}']
  | j => write j

/-- Documents on lines of their own. -/
def prettyItems (level : Nat) : List Json → List Char
  | [] => []
  | [j] => newLine level ++ pretty level j
  | j :: js => newLine level ++ pretty level j ++ ',' :: prettyItems level js

/-- Members of an object on lines of their own. -/
def prettyMembers (level : Nat) : List (List Char × Json) → List Char
  | [] => []
  | [(key, j)] => newLine level ++ quoted key ++ ':' :: ' ' :: pretty level j
  | (key, j) :: rest =>
    newLine level ++ quoted key ++ ':' :: ' ' :: pretty level j ++ ',' ::
      prettyMembers level rest

end

end Json

end Scriptorium

import Scriptorium.Text.Blank
import Scriptorium.Text.Split
import Scriptorium.Toml.Basic

/-!
# Layers of settings

Settings are trees, and one layer is put over another: tables are merged, and
anything else replaces what was there. Keys are compared in lower case. A key at
the top of a layer may be a path: a point leads to an entry of a table, and a
number in brackets to an item of a list. A path makes what is missing on its way,
and replaces what is no table or no list. A setting from the environment is a
boolean or a number where its text is one; its key is the variable's name behind
a marker, with two underscores between the parts.
-/

namespace Scriptorium.Config

/-- A key as it is compared. -/
def foldKey (key : String) : String := String.ofList (key.toList.map Char.toLower)

/-- The entries of a table. What is no table has none. -/
def entriesOf : Toml → List (String × Toml)
  | .table entries => entries
  | _ => []

/-- The entries with a value under a key, in place of what was there. -/
def putEntry (key : String) (v : Toml) : List (String × Toml) → List (String × Toml)
  | [] => [(key, v)]
  | (k, old) :: rest => if k = key then (k, v) :: rest else (k, old) :: putEntry key v rest

/-- The value under a key. -/
def valueAt? (key : String) (t : Toml) : Option Toml := (entriesOf t).lookup key

mutual

/-- The settings with a value put under a key: a table is merged into what is there. -/
def put (key : String) : Toml → Toml → Toml
  | .table incoming, root =>
    let key := foldKey key
    let target := (valueAt? key root).getD (.table [])
    .table (putEntry key (putAll incoming target) (entriesOf root))
  | v, root => .table (putEntry (foldKey key) v (entriesOf root))

/-- The settings with several values put under their keys. -/
def putAll : List (String × Toml) → Toml → Toml
  | [], root => root
  | (key, v) :: rest, root => putAll rest (put key v root)

end

/-- The items of a list. What is no list has none. -/
def itemsOf : Toml → List Toml
  | .array items => items
  | _ => []

/-- The setting of a place that no layer has set. No type of setting is a table. -/
def unset : Toml := .table []

/-- The items with a changed one. Numbers below zero count from the end. The list grows until it
has the item, at its front where the number is below zero. -/
def putItem (index : Int) (f : Toml → Toml) (items : List Toml) : List Toml :=
  let size := items.length
  let back := (-index).toNat
  if 0 ≤ index then
    (items ++ List.replicate (index.toNat + 1 - size) unset).modify index.toNat f
  else (List.replicate (back - size) unset ++ items).modify (size - back) f

/-- A step from a setting to one inside it. -/
inductive Step where
  | entry (key : String)
  | item (index : Int)
  deriving DecidableEq, Repr

/-- The setting with a value put at the end of the way that starts with a step. -/
def putAlong (v : Toml) : Step → List Step → Toml → Toml
  | .entry key, [], here => put key v here
  | .item index, [], here => .array (putItem index (fun _ => v) (itemsOf here))
  | .entry key, step :: rest, here =>
    let key := foldKey key
    let inner := putAlong v step rest ((valueAt? key here).getD unset)
    .table (putEntry key inner (entriesOf here))
  | .item index, step :: rest, here =>
    .array (putItem index (putAlong v step rest) (itemsOf here))

/-- The character may stand in a part of a path. -/
def isPathPart (c : Char) : Bool := c.isAlphanum || c == '_' || c == '-' || c == ' '

/-- The key at the front of a path, and the rest. -/
def cutPart? (cs : List Char) : Option (String × List Char) :=
  let part := cs.takeWhile isPathPart
  if part.isEmpty then none else some (String.ofList part, cs.dropWhile isPathPart)

/-- The integer of 64 bits that a text spells, with a sign or without. -/
def readInteger? (cs : List Char) : Option Int :=
  let (negative, ds) := Decimal.cutSign cs
  let n : Int := if negative then -(Text.digitsValue ds : Int) else Text.digitsValue ds
  if Text.isDigits ds && Int64.minValue.toInt ≤ n && n ≤ Int64.maxValue.toInt then some n else none

/-- The number at the front with blanks around it, up to a closing bracket, and the rest. -/
def cutIndex? (cs : List Char) : Option (Int × List Char) := do
  let cs := Toml.skipSpace cs
  let isPart (c : Char) : Bool := c.isDigit || c == '-'
  let index ← readInteger? (cs.takeWhile isPart)
  let ']' :: rest := Toml.skipSpace (cs.dropWhile isPart) | none
  return (index, rest)

/-- The steps that a text of at most `fuel` characters spells. -/
def stepsFor? : Nat → List Char → Option (List Step)
  | _, [] => some []
  | 0, _ => none
  | fuel + 1, '.' :: cs => do
    let (key, rest) ← cutPart? cs
    return .entry key :: (← stepsFor? fuel rest)
  | fuel + 1, '[' :: cs => do
    let (index, rest) ← cutIndex? cs
    return .item index :: (← stepsFor? fuel rest)
  | _, _ => none

/-- The first step that a key means and those behind it. A key that is no path is one step. -/
def stepsOf (key : String) : Step × List Step :=
  let path : Option (Step × List Step) := do
    let (first, rest) ← cutPart? key.toList
    return (.entry first, ← stepsFor? rest.length rest)
  path.getD (.entry key, [])

/-- The settings with a layer over them. -/
def overlay (root : Toml) (layer : List (String × Toml)) : Toml :=
  layer.foldl (fun root (key, v) =>
    let (step, rest) := stepsOf key
    putAlong v step rest root) root

/-- The setting that a text from the environment spells. -/
def ofText (s : String) : Toml :=
  let cs := s.toList
  match foldKey s with
  | "true" => .boolean true
  | "false" => .boolean false
  | _ =>
    match readInteger? cs, Decimal.read? cs with
    | some n, _ => .integer n
    | none, some d => .decimal d
    | none, none => .text s

/-- The start of the names of variables that hold settings, in lower case. -/
def marker : List Char := "bfa__".toList

/-- The text with every two underscores replaced by a point. -/
def pointed : List Char → List Char
  | '_' :: '_' :: cs => '.' :: pointed cs
  | c :: cs => c :: pointed cs
  | [] => []

/-- The setting that a variable of the environment holds, if it holds one. -/
def ofVariable? (name value : String) : Option (String × Toml) :=
  let cs := name.toList.map Char.toLower
  if marker.isPrefixOf cs then
    some (String.ofList (pointed (cs.drop marker.length)), ofText value)
  else none

end Scriptorium.Config

import Scriptorium.Toml.Document
import Scriptorium.Toml.Quoted
import Scriptorium.Toml.Scalar

/-!
# Reading TOML documents

A document is a sequence of lines: headers, entries, comments and empty ones.
An entry is a path of keys, an equals sign and a value. Arrays may extend over
several lines, tables between braces may not, and the two may be nested to a
limited depth. Every step takes at least one character, so the length of the
text bounds the work.
-/

namespace Scriptorium.Toml

/-- Arrays and tables between braces may be nested in each other this deep. -/
def depthBound : Nat := 79

mutual

/-- The value at the front, with at most `depth` containers nested in it, and the rest. -/
def cutValueFor : Nat → Nat → List Char → Option (Toml × List Char)
  | 0, _, _ => none
  | fuel + 1, depth, cs =>
    match cs, depth with
    | '[' :: rest, depth + 1 => do
      let (items, rest) ← cutItemsFor fuel depth rest
      return (.array items, rest)
    | '\x7b' :: rest, depth + 1 => do
      let (entries, rest) ← cutInlineFor fuel depth (skipSpace rest)
      return (.table (finishEntries entries), rest)
    | c :: _, _ =>
      if c == '"' || c == '\'' then
        (cutQuoted? cs).map fun (s, rest) => (.text (String.ofList s), rest)
      else cutScalar? cs
    | [], _ => none

/-- The items of an array up to its closing bracket, and the rest. -/
def cutItemsFor : Nat → Nat → List Char → Option (List Toml × List Char)
  | 0, _, _ => none
  | fuel + 1, depth, cs => do
    match ← skipFiller? false cs with
    | ']' :: rest => return ([], rest)
    | cs =>
      let (item, rest) ← cutValueFor fuel depth cs
      match ← skipFiller? false rest with
      | ',' :: rest =>
        let (items, rest) ← cutItemsFor fuel depth rest
        return (item :: items, rest)
      | ']' :: rest => return ([item], rest)
      | _ => none

/-- The entries of a table up to its closing brace, and the rest. -/
def cutInlineFor : Nat → Nat → List Char → Option (Slots × List Char)
  | 0, _, _ => none
  | fuel + 1, depth, cs =>
    match cs with
    | '\x7d' :: rest => some ([], rest)
    | _ => cutInlineEntriesFor fuel depth [] cs

/-- At least one entry of a table after those before it, up to the closing brace, and the
rest. -/
def cutInlineEntriesFor : Nat → Nat → Slots → List Char → Option (Slots × List Char)
  | 0, _, _, _ => none
  | fuel + 1, depth, entries, cs => do
    let (path, rest) ← cutPath? cs
    let '=' :: rest := rest | none
    let (v, rest) ← cutValueFor fuel depth (skipSpace rest)
    let entries ← addAlong? v path entries
    match skipSpace rest with
    | ',' :: rest => cutInlineEntriesFor fuel depth entries rest
    | '\x7d' :: rest => return (entries, rest)
    | _ => none

end

/-- The value at the front, and the rest. -/
def cutValue? (cs : List Char) : Option (Toml × List Char) :=
  cutValueFor (2 * cs.length + 2) depthBound cs

/-- A document under construction and the path of its open table. -/
structure Draft where
  slots : Slots
  header : List String

namespace Draft

/-- Changes the table at the end of a header's path, of which the last key is given to `f`. -/
def place? (d : Draft) (f : String → Slots → Option Slots) (path : List String) :
    Option Draft := do
  let key ← path.getLast?
  return ⟨← underHeader? (f key) path.dropLast d.slots, path⟩

/-- Adds an entry to the open table. -/
def add? (d : Draft) (path : List String) (v : Toml) : Option Draft := do
  return { d with slots := ← underHeader? (addAlong? v path) d.header d.slots }

end Draft

/-- Reads a line that is not empty, and what belongs to its value, and yields the rest. -/
def readLine? (d : Draft) : List Char → Option (Draft × List Char)
  | '[' :: '[' :: cs => do
    let (path, rest) ← cutPath? cs
    let ']' :: ']' :: rest := rest | none
    return (← d.place? openNext? path, ← endLine? rest)
  | '[' :: cs => do
    let (path, rest) ← cutPath? cs
    let ']' :: rest := rest | none
    return (← d.place? openTable? path, ← endLine? rest)
  | cs => do
    let (path, rest) ← cutPath? cs
    let '=' :: rest := rest | none
    let (v, rest) ← cutValue? (skipSpace rest)
    return (← d.add? path v, ← endLine? rest)

/-- Reads all lines, at most `fuel`. -/
def readLinesFor (d : Draft) : Nat → List Char → Option Draft
  | 0, _ => none
  | fuel + 1, cs => do
    match ← skipFiller? false cs with
    | [] => return d
    | line =>
      let (d, rest) ← readLine? d line
      readLinesFor d fuel rest

/-- The text without a byte order mark at its front. -/
def dropMark : List Char → List Char
  | [] => []
  | c :: cs => if c.toNat = 0xFEFF then cs else c :: cs

/-- The entries of the document that a text spells. -/
def read? (text : String) : Option (List (String × Toml)) :=
  let cs := normalized (dropMark text.toList)
  (readLinesFor ⟨[], []⟩ (cs.length + 1) cs).map fun d => finishEntries d.slots

end Scriptorium.Toml

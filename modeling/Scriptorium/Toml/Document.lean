import Scriptorium.Toml.Basic

/-!
# Building TOML documents

A document is built from headers and entries in the order in which they are
written. A header opens a table that no earlier header has opened and that no
path of keys has made; a table that exists only because a longer header passed
through it may still be opened. A path of keys adds to tables made by paths of
keys alone. A key of a table is given one value.
-/

namespace Scriptorium.Toml

/-- How a table came to be. -/
inductive Origin where
  /-- A longer header passes through it. -/
  | implied
  /-- A path of keys passes through it. -/
  | path
  /-- A header names it. -/
  | header
  deriving DecidableEq, Repr

/-- An entry of a document under construction. -/
inductive Slot where
  | value (v : Toml)
  | table (origin : Origin) (entries : List (String × Slot))
  /-- Tables under one header in double brackets, of which the last one is open. -/
  | tables (closed : List (List (String × Slot))) (last : List (String × Slot))

/-- The entries of a table under construction. -/
abbrev Slots := List (String × Slot)

mutual

/-- The value of a finished entry. -/
def Slot.finish : Slot → Toml
  | .value v => v
  | .table _ entries => .table (finishEntries entries)
  | .tables closed last => .array (finishTables closed ++ [.table (finishEntries last)])

/-- The values of finished entries. -/
def finishEntries : Slots → List (String × Toml)
  | [] => []
  | (key, slot) :: rest => (key, slot.finish) :: finishEntries rest

/-- The values of finished tables. -/
def finishTables : List Slots → List Toml
  | [] => []
  | entries :: rest => .table (finishEntries entries) :: finishTables rest

end

/-- The entries with a changed one under the key, which is added when it is new. -/
def change? (key : String) (f : Option Slot → Option Slot) : Slots → Option Slots
  | [] => (f none).map fun slot => [(key, slot)]
  | (k, slot) :: rest =>
    if k = key then (f (some slot)).map fun slot => (k, slot) :: rest
    else (change? key f rest).map ((k, slot) :: ·)

/-- Changes the table at the end of a path of headers, making what is missing on the way. -/
def underHeader? (f : Slots → Option Slots) : List String → Slots → Option Slots
  | [], entries => f entries
  | key :: rest, entries => change? key (fun
      | none => (underHeader? f rest []).map (.table .implied)
      | some (.table origin inner) => (underHeader? f rest inner).map (.table origin)
      | some (.tables closed last) => (underHeader? f rest last).map (.tables closed)
      | some (.value _) => none) entries

/-- Adds an entry whose key is new. -/
def addNew? (key : String) (v : Toml) : Slots → Option Slots :=
  change? key fun
    | none => some (.value v)
    | some _ => none

/-- Adds an entry at the end of a path of keys, making what is missing on the way. The path may
not pass through a table that a header names, and the table in which it ends is made by such
paths alone. -/
def addAlong? (v : Toml) : List String → Slots → Option Slots
  | [], _ => none
  | [key], entries => addNew? key v entries
  | key :: rest, entries => change? key (fun
      | none => (addAlong? v rest []).map (.table .path)
      | some (.table .path inner) => (addAlong? v rest inner).map (.table .path)
      | some (.table .implied inner) =>
        if rest.length = 1 then none else (addAlong? v rest inner).map (.table .implied)
      | some (.tables closed last) =>
        if rest.length = 1 then none else (addAlong? v rest last).map (.tables closed)
      | some _ => none) entries

/-- Opens the table that a header names. -/
def openTable? (key : String) : Slots → Option Slots :=
  change? key fun
    | none => some (.table .header [])
    | some (.table .implied inner) => some (.table .header inner)
    | some _ => none

/-- Opens one more table under a header in double brackets. -/
def openNext? (key : String) : Slots → Option Slots :=
  change? key fun
    | none => some (.tables [] [])
    | some (.tables closed last) => some (.tables (closed ++ [last]) [])
    | some _ => none

end Scriptorium.Toml

import Scriptorium.Json.Escape

/-!
# Structures and alternatives as documents

A structure is an object with a member for each field, or an array with the
fields in order. Unknown members are passed over, and a member may be missing
only where its absence means something. An alternative with content is an object
whose only member is named for it; one without content is its name alone, or an
object whose only member is null.

Containers that are looked into may be nested to a limited depth. Each look
into one lowers the depth that is left, so what is passed over may be nested
deeper.
-/

namespace Scriptorium.Json

/-- An alternative without content. -/
def tag (name : String) : Json := ofText name

/-- An alternative with content. -/
def tagged (name : String) (content : Json) : Json := ofMembers [(name, content)]

/-- The value stored for a name in the order of `names`. -/
def place (names : List String) (name : String) (j : Json) :
    List (Option Json) → Option (List (Option Json))
  | [] => some []
  | slot :: slots =>
    match names with
    | [] => some (slot :: slots)
    | n :: names =>
      if n = name then
        match slot with
        | none => some (some j :: slots)
        | some _ => none
      else (place names name j slots).map (slot :: ·)

/-- The values of the named members. None when a name is ill spelled or occurs twice. -/
def collect (names : List String) :
    List (List Char × Json) → List (Option Json) → Option (List (Option Json))
  | [], slots => some slots
  | (key, j) :: rest, slots => do
    let name ← unescape? key
    let slots ← place names (String.ofList name) j slots
    collect names rest slots

/-- The values of a structure's fields, and the depth that is left inside it. -/
def fields? (names : List String) : Nat → Json → Option (List (Option Json) × Nat)
  | depth + 1, .object members =>
    (collect names members (names.map fun _ => none)).map (·, depth)
  | depth + 1, .array items =>
    if items.length = names.length then some (items.map some, depth) else none
  | _, _ => none

/-- The items of an array, and the depth that is left inside it. -/
def items? : Nat → Json → Option (List Json × Nat)
  | depth + 1, .array items => some (items, depth)
  | _, _ => none

/-- An alternative's name with its content, and the depth that is left for the content. The
content of a name alone is null. -/
inductive Alternative where
  | name (n : String)
  | content (n : String) (j : Json) (depth : Nat)
  deriving Repr

/-- The alternative that a document spells. -/
def alternative? : Nat → Json → Option Alternative
  | _, .string escaped => (unescape? escaped).map fun n => .name (String.ofList n)
  | depth + 1, .object [(key, j)] =>
    (unescape? key).map fun n => .content (String.ofList n) j depth
  | _, _ => none

/-- The name of an alternative without content. -/
def Alternative.tag? : Alternative → Option String
  | .name n => some n
  | .content n .null _ => some n
  | _ => none

/-- The alternative without content that a document spells, by a table of names. -/
def oneOf? {α : Type} (table : List (String × α)) (depth : Nat) (j : Json) : Option α := do
  let a ← alternative? depth j
  let n ← a.tag?
  table.lookup n

end Scriptorium.Json

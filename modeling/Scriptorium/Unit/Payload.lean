import Scriptorium.Unit.Decode
import Scriptorium.Unit.Digest
import Scriptorium.Value.Json

/-!
# Stored units

A unit is stored as an envelope: the number of the format, the digest of the
body, and the body, which is a document inside a string. Reading checks these
in turn: the envelope can be read, its format is known, the digest belongs to
the body, the body can be read, it is of the kind that the name denotes, and a
record type has the name under which it is stored.
-/

namespace Scriptorium

/-- Why a stored unit cannot be used. -/
inductive PayloadFault where
  | unreadablePayload
  | unsupportedFormat (format : Nat)
  | digestMismatch
  | unreadableBody
  | kindMismatch (found expected : UnitKind)
  | nameMismatch (found : QualifiedName)
  deriving DecidableEq, Repr

/-- The message about a stored unit that cannot be used. -/
def PayloadFault.message : PayloadFault → String
  | .unreadablePayload => "Unreadable payload"
  | .unsupportedFormat format => s!"Unsupported payload format {format}"
  | .digestMismatch => "Payload digest does not match its body"
  | .unreadableBody => "Unreadable unit body"
  | .kindMismatch found expected =>
    s!"payload holds a {found.text} but the name denotes a {expected.text}"
  | .nameMismatch found => s!"payload describes record type [{found}]"

namespace Payload

/-- The number of the format that is written and read. -/
def format : Nat := 1

/-- The envelope of a body. -/
def envelope (format : Nat) (digest body : String) : String :=
  String.ofList <| Json.write <| Json.ofMembers
    [("format", Json.ofNat format), ("digest", Json.ofText digest), ("body", Json.ofText body)]

/-- The text of a body inside its envelope. -/
def bodyText (body : UnitBody) : String := String.ofList body.toJson.write

/-- The payload of a body. -/
def encode (body : UnitBody) : String :=
  let text := bodyText body
  envelope format (Digest.ofText text) text

/-- The body in the text of an envelope's body. -/
def decodeBody? (text : String) : Option UnitBody :=
  (Json.read? text.toList).bind (UnitBody.ofJson? Json.depthLimit)

/-- The format, digest and body of an envelope. -/
def open? (payload : String) : Option (Nat × String × String) := do
  let j ← Json.read? payload.toList
  match ← Json.fields? ["format", "digest", "body"] Json.depthLimit j with
  | ([some format, some digest, some body], _) =>
    return (← format.nat? UInt32.size, ← Json.text? digest, ← Json.text? body)
  | _ => none

/-- The body of a payload. -/
def decode (payload : String) : Except PayloadFault UnitBody :=
  match open? payload with
  | none => .error .unreadablePayload
  | some (f, digest, text) =>
    if f ≠ format then .error (.unsupportedFormat f)
    else if Digest.ofText text ≠ digest then .error .digestMismatch
    else
      match decodeBody? text with
      | none => .error .unreadableBody
      | some body => .ok body

/-- The body of a payload that is stored under a name. -/
def load (name : QualifiedName) (payload : String) : Except PayloadFault UnitBody := do
  let body ← decode payload
  if body.kind ≠ name.kind then throw (.kindMismatch body.kind name.kind)
  match body with
  | .record t => if t.name ≠ name then throw (.nameMismatch t.name) else return body
  | _ => return body

end Payload

end Scriptorium

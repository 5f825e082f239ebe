import Scriptorium.Expression.Translation
import Scriptorium.Proofs.Target.Layers

/-!
# The tree of an expression

What an expression means is told by its tokens alone, apart from target code.
The tokens stand for values in turn with operations. Every value is a leaf: a
literal, null, a read of a primitive slot, or a reference to any other slot, the
element numbers of which count from one in the expression and from zero in the
tree. The leaves are joined from the left in two layers.
-/

namespace Scriptorium

/-- The operation with this symbol. -/
def BinaryOp.ofSymbol? (symbol : List Char) : Option BinaryOp :=
  [.add, .sub, .mul, .div, .and, .or].find? fun op => op.symbol.toList = symbol

/-- The leaf that takes a slot of this type for a value. -/
def Access.leaf (a : Access) : SemanticType → Node
  | .primitive kind => .read a kind
  | .array | .record _ => .reference a

namespace Expression

/-- The type of the slot to which the named fields lead from a slot of this type. -/
def slotType? (types : Registry) : SemanticType → List String → Option SemanticType
  | type, [] => some type
  | .record name, field :: fields =>
    match types name with
    | .ok (some t) => (t.field? field).bind fun d => slotType? types d.type fields
    | _ => none
  | _, _ :: _ => none

/-- A field leads on from a slot for records of a known type that has the field. -/
theorem slotType?_cons {types : Registry} {slot type : SemanticType} {field : String}
    {fields : List String} :
    slotType? types slot (field :: fields) = some type ↔
      ∃ name t d, slot = .record name ∧ types name = .ok (some t) ∧ t.field? field = some d ∧
        slotType? types d.type fields = some type := by
  cases slot with
  | primitive kind => simp [slotType?]
  | array => simp [slotType?]
  | record name =>
    rw [slotType?]
    rcases hname : types name with cause | _ | t
    · simp [hname]
    · simp [hname]
    · simp [hname, Option.bind_eq_some_iff]

/-- The leaf of an element `name[k]`. -/
def elementLeaf? (token : List Char) : Option Node :=
  (Text.splitFirst? ['['] token).map fun (name, rest) =>
    .reference ⟨String.ofList name, [.index (Text.digitsValue rest.dropLast - 1)]⟩

/-- The leaf of a variable, or of the field to which a chain of fields leads from one. -/
def slotLeaf? (types : Registry) (table : VariableTable) (token : List Char) : Option Node := do
  let (head, fields) := Text.splitAt '.' token
  let v ← table.get? (String.ofList head)
  let type ← slotType? types v.type (fields.map String.ofList)
  return Access.leaf ⟨String.ofList head, fields.map fun f => .field (String.ofList f)⟩ type

/-- The leaf of a value token. -/
def leaf? (types : Registry) (table : VariableTable) (token : List Char) : Option Node :=
  if token = "null".toList then some .null
  else if Text.isInteger token then (Integer.read? token).map fun n => .literal (.integer n)
  else if Text.isDecimal token then (Decimal.read? token).map fun d => .literal (.decimal d)
  else if token = "true".toList then some (.literal (.boolean true))
  else if token = "false".toList then some (.literal (.boolean false))
  else
    match stringLiteral? token with
    | some content => some (.literal (.string (String.ofList content)))
    | none =>
      if token.getLast? = some ']' then elementLeaf? token else slotLeaf? types table token

/-- Operations and the leaves of the tokens behind them, in turn. -/
def links? (leaf : List Char → Option Node) :
    List (List Char) → Option (List (BinaryOp × Node))
  | [] => some []
  | [_] => none
  | symbol :: token :: tokens => do
    let op ← BinaryOp.ofSymbol? symbol
    let node ← leaf token
    return (op, node) :: (← links? leaf tokens)

/-- The leaves and operations of tokens that stand for them in turn. -/
def leaves? (leaf : List Char → Option Node) : List (List Char) → Option (Chain Node)
  | [] => none
  | token :: tokens => do
    let node ← leaf token
    return ⟨node, ← links? leaf tokens⟩

/-- The tree of an expression: every maximal run of tight operations folded from the left, and
what they yield folded from the left. -/
def tree? (types : Registry) (table : VariableTable) (text : String) : Option Node :=
  (leaves? (leaf? types table) (tokenize text.toList)).map fun c => c.layered.tree (Chain.tree id)

end Expression

end Scriptorium

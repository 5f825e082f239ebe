import Scriptorium.Proofs.Decimal.Number
import Scriptorium.Proofs.Expression.Agreement
import Scriptorium.Proofs.Target.Primitive

/-!
# Typed trees

The tree of a translated expression is typed over the declarations: a read finds
a slot of the primitive type that it expects, a reference finds any other slot
or an element of an array, and an operation stands between values of one of its
own kinds. Types stay when more is declared, and when the tree is stored.
-/

namespace Scriptorium

open Target

/-- The access leads from a declared variable along fields to a slot of this type. -/
def Access.Leads (types : Registry) (declared : VariableTable) (a : Access)
    (type : SemanticType) : Prop :=
  ∃ v fields, declared.get? a.head = some v ∧ a.steps = fields.map .field ∧
    Expression.slotType? types v.type fields = some type

/-- The tree yields a value of the kind. -/
inductive Node.Typed (types : Registry) (declared : VariableTable) : Node → ResultKind → Prop
  | integer (n : Int64) : Typed types declared (.literal (.integer n)) (.primitive .integer)
  | decimal {d : Decimal} (h : d ≠ .nan) :
    Typed types declared (.literal (.decimal d)) (.primitive .decimal)
  | boolean (b : Bool) : Typed types declared (.literal (.boolean b)) (.primitive .boolean)
  | string (s : String) : Typed types declared (.literal (.string s)) (.primitive .string)
  | null : Typed types declared .null .null
  | read {a : Access} {kind : PrimitiveKind} (h : a.Leads types declared (.primitive kind)) :
    Typed types declared (.read a kind) (.primitive kind)
  | slot {a : Access} {type : SemanticType} (h : a.Leads types declared type) :
    Typed types declared (.reference a) .reference
  | element {name : String} {n : Nat} (h : declared.typeOf? name = some .array) :
    Typed types declared (.reference ⟨name, [.index n]⟩) .reference
  | binary {op : BinaryOp} {lhs rhs : Node} {kind : PrimitiveKind}
    (hop : op ∈ tightOps kind ++ looseOps kind) (hl : Typed types declared lhs (.primitive kind))
    (hr : Typed types declared rhs (.primitive kind)) :
    Typed types declared (.binary op lhs rhs) (.primitive kind)

/-- The kind of value that a term yields. -/
def Term.kind : Term → ResultKind
  | .operand o => .primitive o.kind
  | .reference _ => .reference
  | .null => .null

namespace Expression

variable {types : Registry} {table : VariableTable}

theorem accessTerm_typed {head : List Char} {fields : List (List Char)} {v : Variable}
    {type : SemanticType} {n : Node} (hget : table.get? (String.ofList head) = some v)
    (htype : slotType? types v.type (fields.map String.ofList) = some type)
    (hn : (accessTerm ⟨head, fields.map .field⟩ type).leaf? = some n) :
    n.Typed types table (accessTerm ⟨head, fields.map .field⟩ type).kind := by
  have hleads : (Access.mk (String.ofList head)
      (fields.map fun f => .field (String.ofList f))).Leads types table type := by
    refine ⟨v, fields.map String.ofList, hget, ?_, htype⟩
    rw [List.map_map]
    rfl
  rw [(accessTerm_leaf head fields type).1] at hn
  cases hn
  cases type with
  | primitive kind => exact .read hleads
  | array => exact .slot hleads
  | record name => exact .slot hleads

theorem element_typed {token : List Char} {term : Term} {n : Node}
    (h : element? table token = some term) (hn : term.leaf? = some n) :
    n.Typed types table term.kind := by
  have hleaf := (element_leaf h).1
  obtain ⟨name, rest, hsplit, -, -, -, harray, -, rfl⟩ := element?_eq_some.mp h
  rw [← hleaf, elementLeaf?, hsplit] at hn
  cases hn
  exact .element harray

theorem fieldChain_typed {token : List Char} {term : Term} {n : Node}
    (h : (fieldChain table token).run types = .ok (some term)) (hn : term.leaf? = some n) :
    n.Typed types table term.kind := by
  obtain ⟨-, v, hget, hfollow⟩ := fieldChain_eq_some.mp h
  obtain ⟨type, htype, rfl⟩ := followFields_slot [] hfollow
  exact accessTerm_typed hget htype hn

theorem variableTerm_typed {token : List Char} {term : Term} {n : Node}
    (h : variableTerm? table token = some term) (hn : term.leaf? = some n) :
    n.Typed types table term.kind := by
  obtain ⟨-, v, hget, rfl⟩ := variableTerm?_eq_some.mp h
  have htype : slotType? types v.type (([] : List (List Char)).map String.ofList) = some v.type :=
    rfl
  exact accessTerm_typed hget htype hn

theorem decimal_typed {token : List Char} {n : Node} (h : Text.isDecimal token = true)
    (hn : (Operand.decimal token).node.toOption = some n) :
    n.Typed types table (.primitive .decimal) := by
  obtain ⟨d, hd⟩ := Decimal.read?_of_isDecimal h
  rw [Operand.node, hd] at hn
  cases hn
  exact .decimal (Decimal.read?_ne_nan (Decimal.spelled_of_isDecimal h) hd)

theorem integer_typed {token : List Char} {n : Node}
    (hn : (Operand.integer token).node.toOption = some n) :
    n.Typed types table (.primitive .integer) := by
  rw [Operand.node] at hn
  split at hn
  · cases hn
    exact .integer _
  · cases hn

theorem literalTerm_typed {token : List Char} {term : Term} {n : Node}
    (h : LiteralTerm token term) (hn : term.leaf? = some n) : n.Typed types table term.kind := by
  cases h with
  | null =>
    cases hn
    exact .null
  | integer => exact integer_typed hn
  | decimal _ hdecimal => exact decimal_typed hdecimal hn
  | true | false =>
    cases hn
    exact .boolean _
  | string =>
    cases hn
    exact .string _

/-- The leaf of a value token is typed. -/
theorem classify_typed {token : List Char} {term : Term} {n : Node}
    (h : (classify table token).run types = .ok (some term)) (hn : term.leaf? = some n) :
    n.Typed types table term.kind := by
  rcases classify_eq_some.mp h with hliteral | ⟨-, hslot⟩
  · exact literalTerm_typed hliteral hn
  · cases hslot with
    | element _ h => exact element_typed h hn
    | chain _ _ h => exact fieldChain_typed h hn
    | declared _ _ h => exact variableTerm_typed h hn

/-- Every tree of the operand is typed. -/
def OperandTyped (types : Registry) (table : VariableTable) (kind : PrimitiveKind)
    (o : Operand) : Prop :=
  ∀ n, o.node = .ok n → n.Typed types table (.primitive kind)

theorem operand_typed {token : List Char} {o : Operand}
    (h : (classify table token).run types = .ok (some (.operand o))) :
    OperandTyped types table o.kind o := by
  intro n hn
  have hleaf : (Term.operand o).leaf? = some n := by
    rw [Term.leaf?, hn]
    rfl
  exact classify_typed h hleaf

theorem Links.typed {kind : PrimitiveKind} {tokens : List (List Char)}
    {links : List (BinaryOp × Operand)} (h : Links types table kind tokens links) :
    ∀ x ∈ links, x.1 ∈ tightOps kind ++ looseOps kind ∧ OperandTyped types table kind x.2 := by
  induction h with
  | nil => exact nofun
  | cons hop hclass hkind _ ih =>
    intro x hx
    rcases List.mem_cons.mp hx with rfl | hx
    · subst hkind
      exact ⟨hop, operand_typed hclass⟩
    · exact ih x hx

theorem fold_typed {kind : PrimitiveKind} {ops : List BinaryOp} {α : Type}
    {item : α → Except RangeError Node} {c : Chain α} {n : Node}
    (hops : ∀ op ∈ ops, op ∈ tightOps kind ++ looseOps kind)
    (h : c.Spelled ops fun a => ∀ n, item a = .ok n → n.Typed types table (.primitive kind))
    (hn : c.fold item = .ok n) : n.Typed types table (.primitive kind) := by
  apply h.fold_induction _ _ hn
  · intro op hop lhs rhs hl hr
    exact .binary (hops op hop) hl hr
  · intro a m ha hm
    exact ha m hm

/-- The tree of a formula that tokens spell is typed. -/
theorem Spells.typed {tokens : List (List Char)} {f : Formula} {e : TargetExpr}
    (h : Spells types table tokens f) (he : f.expr = .ok e) :
    e.kind = f.kind ∧ e.root.Typed types table f.kind := by
  cases h with
  | @computed token o tokens links hclass hlinks =>
    obtain ⟨root, hroot, rfl⟩ := Formula.computed_expr_eq_ok.mp he
    refine ⟨rfl, ?_⟩
    have hspelled : (Chain.mk o links).Spelled (tightOps o.kind ++ looseOps o.kind)
        (OperandTyped types table o.kind) := ⟨operand_typed hclass, hlinks.typed⟩
    have htight : ∀ op ∈ tightOps o.kind, op.isTight = true := by
      cases o.kind <;> decide
    have hloose : ∀ op ∈ looseOps o.kind, op.isTight = false := by
      cases o.kind <;> decide
    obtain ⟨hfirst, hrest⟩ := Chain.layered_spelled htight hloose hspelled
    have hgroup {g : Chain Operand}
        (hg : g.Spelled (tightOps o.kind) (OperandTyped types table o.kind)) (n : Node)
        (hn : g.fold Operand.node = .ok n) : n.Typed types table (.primitive o.kind) :=
      fold_typed (fun op hop => List.mem_append_left _ hop) hg hn
    apply fold_typed (fun op hop => List.mem_append_right _ hop) _ hroot
    exact ⟨hgroup hfirst, fun x hx => ⟨(hrest x hx).1, hgroup (hrest x hx).2⟩⟩
  | @reference token access hclass =>
    obtain ⟨a, haccess, rfl⟩ := Formula.reference_expr_eq_ok.mp he
    have hleaf : (Term.reference access).leaf? = some (.reference a) := by
      rw [Term.leaf?, haccess]
      rfl
    exact ⟨rfl, classify_typed hclass hleaf⟩
  | null hclass =>
    cases he
    exact ⟨rfl, .null⟩

/-- The statement that an expression translates to has a tree of the expression's kind. -/
theorem sentence_typed {text : String} {s : Sentence} {e : TargetExpr}
    (hs : (sentence table text).run types = .ok s)
    (he : parseTarget s.targetCode.text.toList = .ok e) :
    e.kind = s.kind ∧ e.root.Typed types table s.kind := by
  obtain ⟨f, hspells, hparse, hkind⟩ := sentence_formula hs
  rw [parseTarget, hparse] at he
  simp only at he
  split at he
  · cases he
  · next hexpr =>
    cases he
    rw [← hkind]
    exact hspells.typed hexpr

end Expression

namespace Node

variable {types : Registry} {declared declared' : VariableTable} {n : Node} {kind : ResultKind}

/-- A tree that is stored is typed as before. -/
theorem Typed.reread (h : n.Typed types declared kind) : n.reread.Typed types declared kind := by
  induction h with
  | integer n => exact .integer n
  | decimal hd => exact .decimal (Decimal.reread_ne_nan hd)
  | boolean b => exact .boolean b
  | string s => exact .string s
  | null => exact .null
  | read h => exact .read h
  | slot h => exact .slot h
  | element h => exact .element h
  | binary hop _ _ ihl ihr => exact .binary hop ihl ihr

end Node

end Scriptorium

import Scriptorium.Proofs.Json.Number
import Scriptorium.Proofs.Json.Tagged
import Scriptorium.Unit.Decode

/-!
# Expression trees read back from documents

A tree that is read back from its document is the tree itself, but for its
decimal literals: each of them is the decimal that its numeral denotes in a
document. Only literals of primitive types are considered, since no others
occur in compiled expressions.
-/

namespace Scriptorium

open Json

/-- The decimal that the numeral of a decimal denotes in a document. -/
def Decimal.reread (d : Decimal) : Decimal := (ofDecimal d).decimal?.getD d

namespace Node

/-- The tree with every decimal literal as its numeral denotes it in a document. -/
def reread : Node → Node
  | .literal (.decimal d) => .literal (.decimal d.reread)
  | .binary op lhs rhs => .binary op lhs.reread rhs.reread
  | n => n

/-- Every literal is of a primitive type. -/
def Primitive : Node → Prop
  | .literal (.integer _) | .literal (.decimal _) | .literal (.boolean _) | .literal (.string _) =>
    True
  | .literal _ => False
  | .binary _ lhs rhs => lhs.Primitive ∧ rhs.Primitive
  | _ => True

end Node

/-- The expression with every decimal literal as its numeral denotes it in a document. -/
def TargetExpr.reread (e : TargetExpr) : TargetExpr := ⟨e.kind, e.root.reread⟩

namespace Json

/-- Documents that are read back one by one are read back together. -/
theorem mapM_map {α β γ : Type} {f : β → Option γ} {g : α → β} (r : α → γ) {xs : List α}
    (h : ∀ x ∈ xs, ∀ y, f (g x) = some y → y = r x) {ys : List γ}
    (hys : (xs.map g).mapM f = some ys) : ys = xs.map r := by
  induction xs generalizing ys with
  | nil =>
    cases hys
    rfl
  | cons x xs ih =>
    rw [List.map_cons, List.mapM_cons] at hys
    obtain ⟨y, hy, hys⟩ := Option.bind_eq_some_iff.mp hys
    obtain ⟨ys, hrest, hys⟩ := Option.bind_eq_some_iff.mp hys
    cases hys
    rw [h x List.mem_cons_self y hy,
      ih (fun x hx => h x (List.mem_cons_of_mem _ hx)) hrest, List.map_cons]

end Json

theorem Step.ofJson?_toJson {depth : Nat} {s t : Step} (h : Step.ofJson? depth s.toJson = some t) :
    t = s := by
  cases depth with
  | zero => cases s <;> simp [Step.ofJson?, Step.toJson, alternative?_zero] at h
  | succ depth =>
    cases s with
    | field name =>
      rw [Step.ofJson?, Step.toJson, alternative?_tagged] at h
      simp only [Option.bind_eq_bind, Option.bind_some, text?_ofText] at h
      cases h
      rfl
    | index n =>
      rw [Step.ofJson?, Step.toJson, alternative?_tagged] at h
      simp only [Option.bind_eq_bind, Option.bind_some] at h
      obtain ⟨m, hm, h⟩ := Option.bind_eq_some_iff.mp h
      cases h
      rw [nat?_ofNat hm]

theorem Access.ofJson?_toJson {depth : Nat} {a b : Access}
    (h : Access.ofJson? depth a.toJson = some b) : b = a := by
  cases depth with
  | zero => simp [Access.ofJson?, fields?_zero] at h
  | succ depth =>
    rw [Access.ofJson?, Access.toJson, fields?_two _ _ _ (by decide)] at h
    simp only [Option.bind_eq_bind, Option.bind_some, text?_ofText] at h
    obtain ⟨⟨items, inner⟩, hitems, hsteps⟩ := Option.bind_eq_some_iff.mp h
    obtain ⟨rfl, -⟩ := items?_array hitems
    obtain ⟨steps, hread, hb⟩ := Option.bind_eq_some_iff.mp hsteps
    cases hb
    rw [mapM_map id (fun s _ t ht => Step.ofJson?_toJson ht) hread, List.map_id]

theorem PrimitiveKind.ofJson?_toJson (depth : Nat) (k : PrimitiveKind) :
    PrimitiveKind.ofJson? depth k.toJson = some k := by
  rw [PrimitiveKind.ofJson?, PrimitiveKind.toJson, oneOf?_tag]
  cases k <;> rfl

theorem ResultKind.ofJson?_toJson (depth : Nat) (k : ResultKind) :
    ResultKind.ofJson? depth k.toJson = some k := by
  rw [ResultKind.ofJson?, ResultKind.toJson, oneOf?_tag]
  rcases k with k | _ | _
  · cases k <;> rfl
  · rfl
  · rfl

theorem BinaryOp.ofJson?_tag (depth : Nat) (op : BinaryOp) :
    BinaryOp.ofJson? depth (tag op.name) = some op := by
  rw [BinaryOp.ofJson?, oneOf?_tag]
  cases op <;> rfl

theorem Value.decode?_eq (depth : Nat) (j : Json) :
    ∃ item field, Value.decode? depth j = (alternative? depth j).bind (ofAlternative? item field) :=
  match depth with
  | 0 => ⟨none, none, rfl⟩
  | 1 => ⟨none, none, rfl⟩
  | 2 => ⟨_, none, rfl⟩
  | _ + 3 => ⟨_, _, rfl⟩

/-- A literal is read back, a decimal as its numeral denotes it. -/
theorem Value.decode?_encode {depth : Nat} {v : Value} (h : (Node.literal v).Primitive) {w : Value}
    (hw : Value.decode? depth v.encode = some w) : Node.literal w = (Node.literal v).reread := by
  obtain ⟨item, field, hread⟩ := Value.decode?_eq depth v.encode
  rw [hread] at hw
  cases depth with
  | zero =>
    cases v with
    | null => cases h
    | _ => simp [Value.encode, alternative?_zero] at hw
  | succ depth =>
    cases v with
    | integer n =>
      rw [Value.encode, alternative?_tagged, Option.bind_some, ofAlternative?, int64?_ofInt64] at hw
      cases hw
      rfl
    | decimal d =>
      rw [Value.encode, alternative?_tagged, Option.bind_some, ofAlternative?] at hw
      obtain ⟨e, he, hw⟩ := Option.bind_eq_some_iff.mp hw
      cases hw
      simp [Node.reread, Decimal.reread, he]
    | boolean b =>
      rw [Value.encode, alternative?_tagged, Option.bind_some, ofAlternative?] at hw
      cases hw
      rfl
    | string s =>
      rw [Value.encode, alternative?_tagged, Option.bind_some, ofAlternative?, text?_ofText] at hw
      cases hw
      rfl
    | null => cases h
    | array items => cases h
    | record type fields => cases h

theorem Node.ofJson?_toJson {depth : Nat} {n m : Node} (h : n.Primitive)
    (hm : Node.ofJson? depth n.toJson = some m) : m = n.reread := by
  induction n generalizing depth m with
  | literal v =>
    cases depth with
    | zero => simp [Node.ofJson?, Node.toJson, alternative?_zero] at hm
    | succ depth =>
      rw [Node.ofJson?, Node.toJson, alternative?_tagged] at hm
      simp only [Option.bind_eq_bind, Option.bind_some] at hm
      obtain ⟨w, hw, hm⟩ := Option.bind_eq_some_iff.mp hm
      cases hm
      exact Value.decode?_encode h hw
  | read access kind =>
    cases depth with
    | zero => simp [Node.ofJson?, Node.toJson, alternative?_zero] at hm
    | succ depth =>
      rw [Node.ofJson?, Node.toJson, alternative?_tagged] at hm
      simp only [Option.bind_eq_bind, Option.bind_some] at hm
      cases depth with
      | zero => simp [fields?_zero] at hm
      | succ depth =>
        rw [fields?_two _ _ _ (by decide)] at hm
        simp only [Option.bind_some, PrimitiveKind.ofJson?_toJson] at hm
        obtain ⟨a, ha, hm⟩ := Option.bind_eq_some_iff.mp hm
        cases hm
        rw [Access.ofJson?_toJson ha]
        rfl
  | reference access =>
    cases depth with
    | zero => simp [Node.ofJson?, Node.toJson, alternative?_zero] at hm
    | succ depth =>
      rw [Node.ofJson?, Node.toJson, alternative?_tagged] at hm
      simp only [Option.bind_eq_bind, Option.bind_some] at hm
      obtain ⟨a, ha, hm⟩ := Option.bind_eq_some_iff.mp hm
      cases hm
      rw [Access.ofJson?_toJson ha]
      rfl
  | null =>
    rw [Node.ofJson?, Node.toJson, alternative?_tag] at hm
    simp only [Option.bind_eq_bind, Option.bind_some, Alternative.tag?] at hm
    cases hm
    rfl
  | binary op lhs rhs ihl ihr =>
    obtain ⟨hl, hr⟩ := h
    cases depth with
    | zero => simp [Node.ofJson?, Node.toJson, alternative?_zero] at hm
    | succ depth =>
      rw [Node.ofJson?, Node.toJson, alternative?_tagged] at hm
      simp only [Option.bind_eq_bind, Option.bind_some] at hm
      cases depth with
      | zero => simp [fields?_zero] at hm
      | succ depth =>
        rw [fields?_three _ _ _ _ (by decide)] at hm
        simp only [Option.bind_some, BinaryOp.ofJson?_tag] at hm
        obtain ⟨l, hlhs, hm⟩ := Option.bind_eq_some_iff.mp hm
        obtain ⟨r, hrhs, hm⟩ := Option.bind_eq_some_iff.mp hm
        cases hm
        rw [ihl hl hlhs, ihr hr hrhs]
        rfl

/-- An expression is read back, its decimal literals as their numerals denote them. -/
theorem TargetExpr.ofJson?_toJson {depth : Nat} {e f : TargetExpr} (h : e.root.Primitive)
    (hf : TargetExpr.ofJson? depth e.toJson = some f) : f = e.reread := by
  cases depth with
  | zero => simp [TargetExpr.ofJson?, fields?_zero] at hf
  | succ depth =>
    rw [TargetExpr.ofJson?, TargetExpr.toJson, fields?_two _ _ _ (by decide)] at hf
    simp only [Option.bind_eq_bind, Option.bind_some, ResultKind.ofJson?_toJson] at hf
    obtain ⟨root, hroot, hf⟩ := Option.bind_eq_some_iff.mp hf
    cases hf
    rw [Node.ofJson?_toJson h hroot]
    rfl

end Scriptorium

import Scriptorium.Proofs.Target.Layers
import Scriptorium.Proofs.Unit.Reread
import Scriptorium.Target.Parser

/-!
# Literals of target code

The tree that a chain folds to is built from the trees of its items by binary
nodes alone. So whatever holds of all operands and of every binary node over
such trees holds of the tree of a statement; for one, all its literals are of
primitive types.
-/

namespace Scriptorium

namespace Chain

variable {α : Type} {tree : α → Except RangeError Node} {P : Node → Prop}

/-- What the trees of the items have and binary nodes keep, the tree of a chain has. -/
theorem fold_induction {c : Chain α}
    (hbinary : ∀ op ∈ c.rest.map Prod.fst, ∀ lhs rhs, P lhs → P rhs → P (.binary op lhs rhs))
    (hitem : ∀ a ∈ c.first :: c.rest.map Prod.snd, ∀ n, tree a = .ok n → P n) {n : Node}
    (h : c.fold tree = .ok n) : P n := by
  obtain ⟨first, rest⟩ := c
  unfold fold at h
  dsimp only at h
  cases hfirst : tree first with
  | error cause =>
    rw [hfirst] at h
    cases h
  | ok lhs =>
    rw [hfirst] at h
    have hlhs : P lhs := hitem first List.mem_cons_self lhs hfirst
    have hrest : ∀ a ∈ rest.map Prod.snd, ∀ n, tree a = .ok n → P n :=
      fun a ha => hitem a (List.mem_cons_of_mem _ ha)
    replace hbinary : ∀ op ∈ rest.map Prod.fst, ∀ lhs rhs, P lhs → P rhs → P (.binary op lhs rhs) :=
      hbinary
    clear hitem hfirst
    -- The tree built so far is the left operand of the next link.
    replace h : (rest.foldlM (fun lhs (x : BinaryOp × α) => do
      let rhs ← tree x.2
      return .binary x.1 lhs rhs) lhs : Except RangeError Node) = .ok n := h
    induction rest generalizing lhs with
    | nil =>
      cases h
      exact hlhs
    | cons link rest ih =>
      obtain ⟨op, a⟩ := link
      rw [List.foldlM_cons] at h
      cases hrhs : tree a with
      | error cause =>
        simp only [hrhs] at h
        cases h
      | ok rhs =>
        simp only [hrhs] at h
        have hP := hbinary op List.mem_cons_self lhs rhs hlhs (hrest a List.mem_cons_self rhs hrhs)
        exact ih _ hP (fun x hx => hrest x (List.mem_cons_of_mem _ hx))
          (fun x hx => hbinary x (List.mem_cons_of_mem _ hx)) h

/-- What the trees of well-spelled items have and the operations of the layer keep, the tree of the
layer has. -/
theorem Spelled.fold_induction {ops : List BinaryOp} {good : α → Prop} {c : Chain α}
    (hc : c.Spelled ops good)
    (hbinary : ∀ op ∈ ops, ∀ lhs rhs, P lhs → P rhs → P (.binary op lhs rhs))
    (hitem : ∀ a n, good a → tree a = .ok n → P n) {n : Node} (h : c.fold tree = .ok n) : P n := by
  refine Chain.fold_induction (fun op hop lhs rhs hl hr => ?_) (fun a ha m hm => ?_) h
  · obtain ⟨x, hx, rfl⟩ := List.mem_map.mp hop
    exact hbinary _ (hc.2 x hx).1 lhs rhs hl hr
  · exact hitem a m (hc.of_mem_items a ha) hm

end Chain

theorem Operand.read_node_eq_ok {access : WrittenAccess} {kind : PrimitiveKind} {n : Node} :
    (Operand.read access kind).node = .ok n ↔ ∃ a, access.access = .ok a ∧ n = .read a kind := by
  rw [Operand.node]
  cases access.access with
  | error cause => exact ⟨nofun, nofun⟩
  | ok a =>
    constructor
    · rintro ⟨⟩
      exact ⟨a, rfl, rfl⟩
    · rintro ⟨_, ⟨⟩, rfl⟩
      rfl

theorem Formula.computed_expr_eq_ok {kind : PrimitiveKind} {groups : Chain (Chain Operand)}
    {e : TargetExpr} : (Formula.computed kind groups).expr = .ok e ↔
      ∃ root, groups.fold (Chain.fold Operand.node) = .ok root ∧ e = ⟨.primitive kind, root⟩ := by
  rw [Formula.expr]
  cases groups.fold (Chain.fold Operand.node) with
  | error cause => exact ⟨nofun, nofun⟩
  | ok root =>
    constructor
    · rintro ⟨⟩
      exact ⟨root, rfl, rfl⟩
    · rintro ⟨_, ⟨⟩, rfl⟩
      rfl

theorem Formula.reference_expr_eq_ok {access : WrittenAccess} {e : TargetExpr} :
    (Formula.reference access).expr = .ok e ↔
      ∃ a, access.access = .ok a ∧ e = ⟨.reference, .reference a⟩ := by
  rw [Formula.expr]
  cases access.access with
  | error cause => exact ⟨nofun, nofun⟩
  | ok a =>
    constructor
    · rintro ⟨⟩
      exact ⟨a, rfl, rfl⟩
    · rintro ⟨_, ⟨⟩, rfl⟩
      rfl

theorem Operand.node_primitive {o : Operand} {n : Node} (h : o.node = .ok n) : n.Primitive := by
  cases o with
  | integer numeral =>
    rw [Operand.node] at h
    split at h
    · cases h
      exact trivial
    · cases h
  | decimal numeral =>
    cases h
    exact trivial
  | boolean b =>
    cases h
    exact trivial
  | string content =>
    cases h
    exact trivial
  | read access kind =>
    obtain ⟨a, -, rfl⟩ := read_node_eq_ok.mp h
    exact trivial

/-- What the trees of operands and references have and binary nodes keep, the tree of a statement
has. -/
theorem Formula.expr_induction {P : Node → Prop}
    (hbinary : ∀ op lhs rhs, P lhs → P rhs → P (.binary op lhs rhs))
    (hoperand : ∀ (o : Operand) n, o.node = .ok n → P n)
    (hreference : ∀ (w : WrittenAccess) a, w.access = .ok a → P (.reference a)) (hnull : P .null)
    {f : Formula} {e : TargetExpr} (h : f.expr = .ok e) : P e.root := by
  cases f with
  | computed kind groups =>
    obtain ⟨root, hroot, rfl⟩ := computed_expr_eq_ok.mp h
    refine Chain.fold_induction (fun op _ => hbinary op) (fun g _ n hg => ?_) hroot
    exact Chain.fold_induction (fun op _ => hbinary op) (fun o _ m ho => hoperand o m ho) hg
  | reference access =>
    obtain ⟨a, haccess, rfl⟩ := reference_expr_eq_ok.mp h
    exact hreference access a haccess
  | null =>
    cases h
    exact hnull

/-- The expression that a text spells is that of its formula. -/
theorem Target.parseTarget_eq_ok {text : List Char} {e : TargetExpr} :
    parseTarget text = .ok e ↔ ∃ f, parseFormula text = .ok f ∧ f.expr = .ok e := by
  unfold parseTarget
  cases hf : parseFormula text with
  | error p => simp
  | ok f => cases he : f.expr <;> simp [he]

/-- The literals of target code are of primitive types. -/
theorem Target.parseTarget_primitive {text : List Char} {e : TargetExpr}
    (h : parseTarget text = .ok e) : e.root.Primitive := by
  obtain ⟨f, -, hf⟩ := parseTarget_eq_ok.mp h
  apply Formula.expr_induction _ _ _ _ hf
  · exact fun _ _ _ hl hr => ⟨hl, hr⟩
  · exact fun _ _ ho => Operand.node_primitive ho
  · exact fun _ _ _ => trivial
  · exact trivial

end Scriptorium

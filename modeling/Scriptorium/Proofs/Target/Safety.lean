import Scriptorium.Proofs.Target.Counting
import Scriptorium.Proofs.Target.Layout
import Scriptorium.Proofs.Target.Soundness

/-!
# Target code is type safe over any table

The layers of the grammar keep values of one kind together: in the tree of a
statement every operand is a literal or a read of the statement's kind, and every
operation is one of the kind. A read yields a value of its kind or fails, whatever
the variables hold, so no operation ever meets operands that it cannot combine.
-/

namespace Scriptorium

open Target

/-- The tree computes a value of the kind from operands of the kind. -/
inductive Node.Computes (kind : PrimitiveKind) : Node → Prop
  | literal {v : Value} (h : v.HasKind (.primitive kind)) : Computes kind (.literal v)
  | read (a : Access) : Computes kind (.read a kind)
  | binary {op : BinaryOp} {lhs rhs : Node} (hop : op ∈ tightOps kind ++ looseOps kind)
    (hl : Computes kind lhs) (hr : Computes kind rhs) : Computes kind (.binary op lhs rhs)

/-- The tree is one of the kind that the expression is said to be of. -/
inductive TargetExpr.Formed : TargetExpr → Prop
  | computed {kind : PrimitiveKind} {root : Node} (h : root.Computes kind) :
    Formed ⟨.primitive kind, root⟩
  | reference (a : Access) : Formed ⟨.reference, .reference a⟩
  | null : Formed ⟨.null, .null⟩

theorem TargetExpr.Formed.computes {e : TargetExpr} (h : e.Formed) {kind : PrimitiveKind}
    (hkind : e.kind = .primitive kind) : e.root.Computes kind := by
  cases h with
  | computed h =>
    cases hkind
    exact h
  | reference a => cases hkind
  | null => cases hkind

theorem Operand.computes {kind : PrimitiveKind} {o : Operand} {n : Node} (ho : o.Spelled kind)
    (h : o.node = .ok n) : n.Computes kind := by
  cases o with
  | integer numeral =>
    obtain ⟨rfl, -⟩ := ho
    rw [Operand.node] at h
    split at h
    · cases h
      exact .literal trivial
    · cases h
  | decimal numeral =>
    obtain ⟨rfl, -⟩ := ho
    cases h
    exact .literal trivial
  | boolean b =>
    obtain rfl := ho
    cases h
    exact .literal trivial
  | string content =>
    obtain rfl := ho
    cases h
    exact .literal trivial
  | read access k =>
    obtain ⟨rfl, -⟩ := ho
    obtain ⟨a, -, rfl⟩ := read_node_eq_ok.mp h
    exact .read a

theorem Chain.Spelled.fold_computes {α : Type} {kind : PrimitiveKind} {ops : List BinaryOp}
    {good : α → Prop} {tree : α → Except RangeError Node} {c : Chain α} {n : Node}
    (hops : ops ⊆ tightOps kind ++ looseOps kind)
    (hitem : ∀ a n, good a → tree a = .ok n → n.Computes kind) (hc : c.Spelled ops good)
    (h : c.fold tree = .ok n) : n.Computes kind := by
  apply hc.fold_induction _ hitem h
  intro op hop lhs rhs hl hr
  exact .binary (hops hop) hl hr

theorem Formula.Spelled.formed {f : Formula} {e : TargetExpr} (hf : f.Spelled)
    (h : f.expr = .ok e) : e.Formed := by
  cases f with
  | computed kind groups =>
    obtain ⟨root, hroot, rfl⟩ := computed_expr_eq_ok.mp h
    refine .computed (hf.fold_computes (List.subset_append_right _ _) (fun g n hg hn => ?_) hroot)
    exact hg.fold_computes (List.subset_append_left _ _) (fun o m => Operand.computes) hn
  | reference access =>
    obtain ⟨a, -, rfl⟩ := reference_expr_eq_ok.mp h
    exact .reference a
  | null =>
    cases h
    exact .null

theorem Target.parseTarget_formed {text : List Char} {e : TargetExpr}
    (h : parseTarget text = .ok e) : e.Formed := by
  obtain ⟨f, hf, he⟩ := parseTarget_eq_ok.mp h
  exact (parseFormula_laid hf).1.formed he

/-- Well-spelled target code is read back as the tree of its formula. -/
theorem Target.parseTarget_valueCode {f : Formula} {e : TargetExpr} (hf : f.Spelled)
    (he : f.expr = .ok e) : parseTarget ("return ".toList ++ f.valueCode ++ [';']) = .ok e :=
  parseTarget_eq_ok.mpr ⟨f, parseFormula_valueCode hf, he⟩

/-- The step to the element with number `n` of a value fails so behind the way with this
spelling. -/
inductive ElementFault (path : String) (n : Nat) : Value → EvalError → Prop
  | nullValue : ElementFault path n .null (.nullValue path)
  | outOfBounds {items : List Value} (h : items.length ≤ n) :
    ElementFault path n (.array items) (.outOfBounds path items.length)
  | notAnArray {v : Value} (hnull : v ≠ .null) (harray : ∀ items, v ≠ .array items) :
    ElementFault path n v (.notAnArray path)

namespace Evaluate

variable {t : VariableTable} {kind : PrimitiveKind}

/-- The evaluation yields a value with the property, or it fails and not because of operands that
no operation combines. -/
def Proper (P : Value → Prop) : Except EvalError Value → Prop
  | .ok v => P v
  | .error cause => ∀ lhs op rhs, cause ≠ .invalidOperands lhs op rhs

theorem Proper.bind {P Q : Value → Prop} {x : Except EvalError Value}
    {f : Value → Except EvalError Value} (h : Proper P x) (k : ∀ v, P v → Proper Q (f v)) :
    Proper Q (x >>= f) := by
  cases x with
  | ok v => exact k v h
  | error cause => exact h

theorem Safe.proper {passed : String → Prop} {P : Value → Prop} {x : Except EvalError Value}
    (h : Safe passed P x) : Proper P x := by
  cases x with
  | ok v => exact h
  | error cause =>
    rintro lhs op rhs rfl
    cases h

theorem Proper.mono {P Q : Value → Prop} {x : Except EvalError Value} (h : Proper P x)
    (k : ∀ v, P v → Q v) : Proper Q x := by
  cases x with
  | ok v => exact k v h
  | error cause => exact h

theorem step_index_cases (path : String) (v : Value) (n : Nat) :
    (∃ items w, v = .array items ∧ items[n]? = some w ∧ step path v (.index n) = .ok w) ∨
      ∃ cause, step path v (.index n) = .error cause ∧ ElementFault path n v cause := by
  cases v with
  | null => exact .inr ⟨_, rfl, .nullValue⟩
  | array items =>
    simp only [step]
    cases hitem : items[n]? with
    | none => exact .inr ⟨_, rfl, .outOfBounds (List.getElem?_eq_none_iff.mp hitem)⟩
    | some w => exact .inl ⟨items, w, rfl, hitem, rfl⟩
  | _ => exact .inr ⟨_, rfl, .notAnArray Value.noConfusion fun _ => Value.noConfusion⟩

theorem step_proper (path : String) (v : Value) (s : Step) :
    Proper (fun _ => True) (step path v s) := by
  unfold step
  split
  · exact nofun
  · split
    · trivial
    · exact nofun
  · exact nofun
  · split
    · trivial
    · exact nofun
  · exact nofun

theorem follow_proper (path : String) (v : Value) (steps : List Step) :
    Proper (fun _ => True) (follow path v steps) := by
  induction steps generalizing v path with
  | nil => trivial
  | cons s rest ih => exact (step_proper path v s).bind fun w _ => ih _ w

theorem resolve_proper (t : VariableTable) (a : Access) : Proper (fun _ => True) (resolve t a) := by
  unfold resolve
  split
  · exact nofun
  · exact follow_proper _ _ _

/-- A read yields a value of its kind, whatever is found. -/
theorem read_proper (t : VariableTable) (a : Access) (kind : PrimitiveKind) :
    Proper (fun v => v.HasKind (.primitive kind)) (read t a kind) := by
  unfold read
  apply (resolve_proper t a).bind
  intro v _
  cases kind <;> cases v <;> first
    | trivial
    | exact nofun

/-- What a tree of a kind yields is of the kind. -/
theorem node_proper {n : Node} (h : n.Computes kind) (t : VariableTable) :
    Proper (fun v => v.HasKind (.primitive kind)) (node t n) := by
  -- Nothing is asked of records here, so no registry or declaration matters.
  let types : Registry := fun _ => .ok none
  induction h with
  | literal hv => exact hv
  | read a => exact read_proper t a kind
  | binary hop _ _ ihl ihr =>
    rw [node]
    apply ihl.bind
    intro left hleft
    split
    · next v hdecided =>
      have hsound : v.HasKind (.primitive kind) ∧ v.Sound types := decided?_sound hdecided hleft
      exact hsound.1
    · apply ihr.bind
      intro right hright
      have happly : Safe (fun _ => False) (fun v => v.HasKind (.primitive kind) ∧ v.Sound types)
          (apply _ left right) := apply_safe _ hop hleft hright
      exact happly.proper.mono fun v hv => hv.1

theorem expr_proper {e : TargetExpr} (h : e.Formed) (t : VariableTable) :
    Proper (fun v => v.HasKind e.kind) (expr t e) := by
  cases h with
  | computed h => exact node_proper h t
  | reference a => exact (resolve_proper t a).mono fun v _ => by cases v <;> trivial
  | null => trivial

theorem follow_append (path : String) (v : Value) (before after : List Step) :
    follow path v (before ++ after) = (do
      let w ← follow path v before
      follow (before.foldl (fun s step => s ++ step.text) path) w after) := by
  induction before generalizing v path with
  | nil => rfl
  | cons s before ih =>
    rw [List.cons_append, follow, follow]
    cases step path v s with
    | error cause => rfl
    | ok w => exact ih _ w

/-- An access goes on from what its first steps find. -/
theorem resolve_append (t : VariableTable) (head : String) (before after : List Step) :
    resolve t ⟨head, before ++ after⟩ = (do
      let v ← resolve t ⟨head, before⟩
      follow (Access.text ⟨head, before⟩) v after) := by
  unfold resolve
  cases t.get? head with
  | none => rfl
  | some v => exact follow_append head v.value before after

/-- Where the first steps of an access lead to a value and the next one is to an element, the
element is there or the access fails at this step. -/
theorem resolve_index_cases {a : Access} {before after : List Step} {n : Nat} {v : Value}
    (ha : a.steps = before ++ .index n :: after) (hv : resolve t ⟨a.head, before⟩ = .ok v) :
    (∃ items w, v = .array items ∧ items[n]? = some w) ∨
      ∃ cause, resolve t a = .error cause ∧
        ElementFault (Access.text ⟨a.head, before⟩) n v cause := by
  have hresolve := resolve_append t a.head before (.index n :: after)
  rw [← ha, hv] at hresolve
  replace hresolve : resolve t a = (do
    let w ← step (Access.text ⟨a.head, before⟩) v (.index n)
    follow (Access.text ⟨a.head, before⟩ ++ (Step.index n).text) w after) := hresolve
  rcases step_index_cases (Access.text ⟨a.head, before⟩) v n with
    ⟨items, w, hitems, hitem, -⟩ | ⟨cause, hstep, hfault⟩
  · exact .inl ⟨items, w, hitems, hitem⟩
  · rw [hstep] at hresolve
    exact .inr ⟨cause, hresolve, hfault⟩

end Evaluate

/-- Target code never fails for operands of different kinds. What it yields is of its kind, a step
to an element fails only where no such element is, and no element number that it counts from one
is too large for a machine word. -/
theorem Target.parseTarget_safe {text : List Char} {e : TargetExpr}
    (h : parseTarget text = .ok e) (t : VariableTable) :
    (∀ lhs op rhs, Evaluate.expr t e ≠ .error (.invalidOperands lhs op rhs)) ∧
    (∀ v, Evaluate.expr t e = .ok v → v.HasKind e.kind) ∧
    (∀ a ∈ e.root.accesses, ∀ before n after v, a.steps = before ++ .index n :: after →
      Evaluate.resolve t ⟨a.head, before⟩ = .ok v →
        (∃ items w, v = .array items ∧ items[n]? = some w) ∨
          ∃ cause, Evaluate.resolve t a = .error cause ∧
            ElementFault (Access.text ⟨a.head, before⟩) n v cause) ∧
    (t.Addressable → Counted.expr t e = Counted.of (Evaluate.expr t e)) := by
  have hproper := Evaluate.expr_proper (parseTarget_formed h) t
  refine ⟨fun lhs op rhs hinvalid => ?_, fun v hv => ?_, fun a _ before n after v ha hv => ?_,
    fun ht => ?_⟩
  · rw [hinvalid] at hproper
    exact hproper lhs op rhs rfl
  · rw [hv] at hproper
    exact hproper
  · exact Evaluate.resolve_index_cases ha hv
  · exact Counted.node_eq ht e.root

/-- A table with an input of two numbers. -/
def VariableTable.pair : VariableTable :=
  ((withInputs [.array [.integer 10, .integer 20]]).bindInput "A" .array).2

/-- The largest word as an element number is out of bounds, and nothing is counted. -/
theorem Target.parseTarget_safe_largest :
    ∃ e, parseTarget "return int(var(\"A\").at(18446744073709551615).int() + 1);".toList = .ok e ∧
      VariableTable.pair.Addressable ∧
      Counted.expr .pair e = Counted.of (.error (.outOfBounds "A" 2)) := by
  let element : Operand := .read ⟨['A'], [.index "18446744073709551615".toList]⟩ .integer
  let f : Formula := .computed .integer ⟨⟨element, []⟩, [(.add, ⟨.integer ['1'], []⟩)]⟩
  have hf : f.Spelled := by
    refine ⟨⟨⟨rfl, fun s hs => ?_⟩, nofun⟩, fun x hx => ?_⟩
    · obtain rfl := List.mem_singleton.mp hs
      rfl
    · obtain rfl := List.mem_singleton.mp hx
      exact ⟨by decide, ⟨rfl, rfl⟩, nofun⟩
  have hparse := parseTarget_valueCode (f := f) hf rfl
  have haddressable : VariableTable.pair.Addressable := by
    intro name v hv items hitems
    have hget : (VariableTable.empty.addInput "A" ⟨.array, .array [.integer 10, .integer 20]⟩).get?
        name = some v := hv
    rw [VariableTable.get?_addInput rfl] at hget
    split at hget
    · cases hget
      obtain rfl : items = [.integer 10, .integer 20] := by
        simpa [Value.parts, Value.partsItems] using hitems
      decide
    · cases hget
  refine ⟨_, hparse, haddressable, ?_⟩
  rw [(parseTarget_safe hparse .pair).2.2.2 haddressable]
  rfl

end Scriptorium

import Scriptorium.Proofs.Target.Safety

/-!
# Integer expressions compute exactly or fail

The reference is arithmetic over the unbounded integers, with division truncated
toward zero. A tree of integers yields its exact value when every read finds an
integer, no divisor is zero, and the exact value of every subtree is a machine
word. Otherwise it fails as the first subtree does that has none of these, in the
order in which values are computed: operands before their operation, from left
to right.
-/

namespace Scriptorium

open Target

/-- The subtrees in the order in which their values are computed. -/
def Node.postorder : Node → List Node
  | .binary op lhs rhs => lhs.postorder ++ rhs.postorder ++ [.binary op lhs rhs]
  | leaf => [leaf]

theorem Node.Computes.of_mem_postorder {kind : PrimitiveKind} {n m : Node} (h : n.Computes kind)
    (hm : m ∈ n.postorder) : m.Computes kind := by
  induction h with
  | literal hv =>
    obtain rfl := List.mem_singleton.mp hm
    exact .literal hv
  | read a =>
    obtain rfl := List.mem_singleton.mp hm
    exact .read a
  | binary hop hl hr ihl ihr =>
    rcases List.mem_append.mp hm with hm | hm
    · rcases List.mem_append.mp hm with hm | hm
      · exact ihl hm
      · exact ihr hm
    · obtain rfl := List.mem_singleton.mp hm
      exact .binary hop hl hr

namespace Integer

/-- The integer is a signed word of 64 bits. -/
def IsWord (n : Int) : Prop := -(2 ^ 63 : Int) ≤ n ∧ n < 2 ^ 63

instance (n : Int) : Decidable (IsWord n) :=
  inferInstanceAs (Decidable (-(2 ^ 63 : Int) ≤ n ∧ n < 2 ^ 63))

/-- The words are the integers that are represented. -/
theorem ofInt?_cases (n : Int) :
    (∃ w, ofInt? n = some w ∧ w.toInt = n ∧ IsWord n) ∨ ofInt? n = none ∧ ¬IsWord n := by
  have hword := Expression.ofInt?_isSome_iff n
  cases hw : ofInt? n with
  | some w =>
    rw [hw] at hword
    exact .inl ⟨w, rfl, toInt_of_ofInt? hw, hword.mp rfl⟩
  | none =>
    rw [hw] at hword
    exact .inr ⟨rfl, fun h => Bool.noConfusion (hword.mpr h)⟩

theorem isWord_toInt (w : Int64) : IsWord w.toInt := by
  refine (Expression.ofInt?_isSome_iff w.toInt).mp ?_
  rw [ofInt?_toInt]
  rfl

end Integer

namespace Evaluate

/-- The operation over the unbounded integers. -/
def exactOp : BinaryOp → Int → Int → Int
  | .add, a, b => a + b
  | .sub, a, b => a - b
  | .mul, a, b => a * b
  | .div, a, b => a.tdiv b
  | .and, _, _ | .or, _, _ => 0

/-- The value of a tree of integers over the unbounded integers. Reads that find no integer count
as zero. -/
def exact (t : VariableTable) : Node → Int
  | .literal (.integer n) => n.toInt
  | .read a _ =>
    match resolve t a with
    | .ok (.integer n) => n.toInt
    | _ => 0
  | .binary op lhs rhs => exactOp op (exact t lhs) (exact t rhs)
  | _ => 0

/-- The failure of a subtree whose operands have their exact values, if it fails. -/
def fault? (t : VariableTable) : Node → Option EvalError
  | .read a kind =>
    match read t a kind with
    | .ok _ => none
    | .error cause => some cause
  | .binary op lhs rhs =>
    let left := String.ofList (Text.intNumeral (exact t lhs))
    let right := String.ofList (Text.intNumeral (exact t rhs))
    if op = .div ∧ exact t rhs = 0 then some (.divisionByZero left right)
    else if Integer.IsWord (exactOp op (exact t lhs) (exact t rhs)) then none
    else some (.overflow left op right)
  | _ => none

/-- Every read of the tree finds an integer, no divisor is zero, and the exact values of all
subtrees are words. -/
structure Representable (t : VariableTable) (root : Node) : Prop where
  reads : ∀ a kind, .read a kind ∈ root.postorder → ∃ m, resolve t a = .ok (.integer m)
  divisors : ∀ lhs rhs, .binary .div lhs rhs ∈ root.postorder → exact t rhs ≠ 0
  words : ∀ n ∈ root.postorder, Integer.IsWord (exact t n)

variable {t : VariableTable} {op : BinaryOp}

theorem integerOp?_eq {a b : Int64} (hop : op ∈ tightOps .integer ++ looseOps .integer)
    (hb : ¬(op = .div ∧ b.toInt = 0)) :
    integerOp? a b op = some (Integer.ofInt? (exactOp op a.toInt b.toInt)) := by
  cases op with
  | add => rfl
  | sub => rfl
  | mul => rfl
  | div =>
    have hne : b ≠ 0 := by
      rintro rfl
      exact hb ⟨rfl, rfl⟩
    rw [integerOp?, Integer.div?, if_neg hne]
    rfl
  | and => exact absurd hop (by decide)
  | or => exact absurd hop (by decide)

/-- An operation on words yields the exact result, if there is one and it is a word. -/
theorem apply_integer (hop : op ∈ tightOps .integer ++ looseOps .integer) (a b : Int64) :
    apply op (.integer a) (.integer b) =
      if op = .div ∧ b.toInt = 0 then
        .error (.divisionByZero (Value.integer a).text (Value.integer b).text)
      else
        match Integer.ofInt? (exactOp op a.toInt b.toInt) with
        | some w => .ok (.integer w)
        | none => .error (.overflow (Value.integer a).text op (Value.integer b).text) := by
  have hdivisor : (op = .div && b = 0) = true ↔ op = .div ∧ b.toInt = 0 := by
    simp [← Int64.toInt_inj]
  unfold apply
  dsimp only
  by_cases hb : op = .div ∧ b.toInt = 0
  · rw [if_pos hb, if_pos (hdivisor.mpr hb)]
  · rw [if_neg hb, if_neg (mt hdivisor.mp hb), integerOp?_eq hop hb]
    cases Integer.ofInt? (exactOp op a.toInt b.toInt) <;> rfl

/-- An operation on words yields a word with the exact value unless it is at fault. -/
theorem apply_exact (hop : op ∈ tightOps .integer ++ looseOps .integer) {lhs rhs : Node}
    {a b : Int64} (ha : a.toInt = exact t lhs) (hb : b.toInt = exact t rhs) :
    (∃ w, apply op (.integer a) (.integer b) = .ok (.integer w) ∧
        w.toInt = exact t (.binary op lhs rhs) ∧ fault? t (.binary op lhs rhs) = none) ∨
      ∃ cause, apply op (.integer a) (.integer b) = .error cause ∧
        fault? t (.binary op lhs rhs) = some cause := by
  rw [apply_integer hop, fault?, ← ha, ← hb, exact, ← ha, ← hb]
  split
  · exact .inr ⟨_, rfl, rfl⟩
  · rcases Integer.ofInt?_cases (exactOp op a.toInt b.toInt) with
      ⟨w, hw, hexact, hword⟩ | ⟨hnone, hword⟩
    · rw [hw, if_pos hword]
      exact .inl ⟨w, rfl, hexact, rfl⟩
    · rw [hnone, if_neg hword]
      exact .inr ⟨_, rfl, rfl⟩

/-- A read yields the integer that is found, or fails. -/
theorem read_integer_cases (t : VariableTable) (a : Access) :
    (∃ w, resolve t a = .ok (.integer w) ∧ read t a .integer = .ok (.integer w)) ∨
      (∀ w, resolve t a ≠ .ok (.integer w)) ∧ ∃ cause, read t a .integer = .error cause := by
  unfold read
  cases hfound : resolve t a with
  | error cause => exact .inr ⟨nofun, cause, rfl⟩
  | ok v =>
    cases v with
    | integer w => exact .inl ⟨w, rfl, rfl⟩
    | _ => exact .inr ⟨nofun, _, rfl⟩

/-- An integer decides no operation by itself. -/
theorem node_binary_integer {lhs rhs : Node} {a : Int64} (h : node t lhs = .ok (.integer a)) :
    node t (.binary op lhs rhs) = (do apply op (.integer a) (← node t rhs)) := by
  rw [node, h]
  cases op <;> rfl

/-- A tree of integers yields its exact value, or fails as its first failing subtree does. -/
theorem node_exact {n : Node} (h : n.Computes .integer) (t : VariableTable) :
    (∃ w, node t n = .ok (.integer w) ∧ w.toInt = exact t n ∧
        n.postorder.findSome? (fault? t) = none) ∨
      ∃ cause, node t n = .error cause ∧ n.postorder.findSome? (fault? t) = some cause := by
  induction h with
  | @literal v hv =>
    cases v with
    | integer w => exact .inl ⟨w, rfl, rfl, rfl⟩
    | _ => cases hv
  | read a =>
    rw [node, Node.postorder, List.findSome?_singleton, fault?, exact]
    · rcases read_integer_cases t a with ⟨w, hfound, hread⟩ | ⟨-, cause, hread⟩
      · rw [hread, hfound]
        exact .inl ⟨w, rfl, rfl, rfl⟩
      · rw [hread]
        exact .inr ⟨cause, rfl, rfl⟩
    · exact fun _ _ _ => Node.noConfusion
  | @binary op lhs rhs hop _ _ ihl ihr =>
    rw [Node.postorder, List.findSome?_append, List.findSome?_append, List.findSome?_singleton]
    rcases ihl with ⟨a, hleft, ha, hlfault⟩ | ⟨cause, hleft, hlfault⟩
    · rw [node_binary_integer hleft, hlfault]
      rcases ihr with ⟨b, hright, hb, hrfault⟩ | ⟨cause, hright, hrfault⟩
      · rw [hright, hrfault]
        exact apply_exact hop ha hb
      · rw [hright, hrfault]
        exact .inr ⟨cause, rfl, rfl⟩
    · rw [node, hleft, hlfault]
      exact .inr ⟨cause, rfl, rfl⟩

/-- What keeps a subtree of integers from being at fault. -/
theorem fault?_eq_none_iff {n : Node} (h : n.Computes .integer) (t : VariableTable) :
    fault? t n = none ↔
      (∀ a kind, n = .read a kind → ∃ m, resolve t a = .ok (.integer m)) ∧
      (∀ lhs rhs, n = .binary .div lhs rhs → exact t rhs ≠ 0) ∧ Integer.IsWord (exact t n) := by
  cases h with
  | @literal v hv =>
    cases v with
    | integer w => exact ⟨fun _ => ⟨nofun, nofun, Integer.isWord_toInt w⟩, fun _ => rfl⟩
    | _ => cases hv
  | read a =>
    rw [fault?, exact]
    rcases read_integer_cases t a with ⟨w, hfound, hread⟩ | ⟨hmissed, cause, hread⟩
    · rw [hread, hfound]
      refine ⟨fun _ => ⟨?_, nofun, Integer.isWord_toInt w⟩, fun _ => rfl⟩
      rintro a' kind' ⟨⟩
      exact ⟨w, hfound⟩
    · rw [hread]
      refine ⟨nofun, fun ⟨hreads, _⟩ => ?_⟩
      obtain ⟨w, hfound⟩ := hreads a .integer rfl
      exact absurd hfound (hmissed w)
  | @binary op lhs rhs _ _ _ =>
    rw [fault?, exact]
    constructor
    · intro hnone
      split at hnone
      · cases hnone
      next hdivisor =>
      split at hnone
      · next hword =>
        refine ⟨nofun, ?_, hword⟩
        rintro l r ⟨⟩ hzero
        exact hdivisor ⟨rfl, hzero⟩
      · cases hnone
    · rintro ⟨-, hdivisors, hword⟩
      rw [if_neg, if_pos hword]
      rintro ⟨rfl, hzero⟩
      exact hdivisors lhs rhs rfl hzero

/-- No subtree is at fault exactly if the tree is computed exactly. -/
theorem findSome?_fault?_eq_none_iff {n : Node} (h : n.Computes .integer) (t : VariableTable) :
    n.postorder.findSome? (fault? t) = none ↔ Representable t n := by
  rw [List.findSome?_eq_none_iff]
  have hfault {m : Node} (hm : m ∈ n.postorder) := fault?_eq_none_iff (h.of_mem_postorder hm) t
  constructor
  · intro hnone
    exact {
      reads := fun a kind hm => ((hfault hm).mp (hnone _ hm)).1 a kind rfl
      divisors := fun lhs rhs hm => ((hfault hm).mp (hnone _ hm)).2.1 lhs rhs rfl
      words := fun m hm => ((hfault hm).mp (hnone m hm)).2.2 }
  · intro hrep m hm
    refine (hfault hm).mpr ⟨?_, ?_, hrep.words m hm⟩
    · rintro a kind rfl
      exact hrep.reads a kind hm
    · rintro lhs rhs rfl
      exact hrep.divisors lhs rhs hm

end Evaluate

/-- An integer expression yields its value over the unbounded integers exactly if that can be
computed in words. Otherwise it fails, and as the first of its subtrees at fault does. -/
theorem Target.parseTarget_exact {text : List Char} {e : TargetExpr}
    (h : parseTarget text = .ok e) (hkind : e.kind = .primitive .integer) (t : VariableTable) :
    (∀ n, Evaluate.expr t e = .ok (.integer n) ↔
      Evaluate.Representable t e.root ∧ n.toInt = Evaluate.exact t e.root) ∧
    (∀ cause, Evaluate.expr t e = .error cause ↔
      e.root.postorder.findSome? (Evaluate.fault? t) = some cause) ∧
    (¬Evaluate.Representable t e.root ↔ ∃ cause, Evaluate.expr t e = .error cause) := by
  have hroot := (parseTarget_formed h).computes hkind
  rw [← Evaluate.findSome?_fault?_eq_none_iff hroot t, Evaluate.expr]
  rcases Evaluate.node_exact hroot t with ⟨w, hnode, hw, hfault⟩ | ⟨cause, hnode, hfault⟩
  · rw [hnode, hfault, ← hw]
    refine ⟨fun n => ?_, fun cause => ⟨nofun, nofun⟩, ⟨fun h => absurd rfl h, nofun⟩⟩
    rw [Int64.toInt_inj]
    constructor
    · rintro ⟨⟩
      exact ⟨rfl, rfl⟩
    · rintro ⟨-, rfl⟩
      rfl
  · rw [hnode, hfault]
    refine ⟨fun n => ⟨nofun, nofun⟩, fun cause' => ?_, ⟨fun _ => ⟨cause, rfl⟩, fun _ => nofun⟩⟩
    constructor
    · rintro ⟨⟩
      rfl
    · rintro ⟨⟩
      rfl

/-- The least word divided by minus one is no word, even where the next term would make up for
it. -/
theorem Target.parseTarget_exact_least :
    ∃ e, parseTarget "return int(-9223372036854775808 / -1 - 1);".toList = .ok e ∧
      e.kind = .primitive .integer ∧ Integer.IsWord (Evaluate.exact .empty e.root) ∧
      ¬Evaluate.Representable .empty e.root ∧
      Evaluate.expr .empty e = .error (.overflow "-9223372036854775808" .div "-1") := by
  let least : Operand := .integer "-9223372036854775808".toList
  let f : Formula := .computed .integer
    ⟨⟨least, [(.div, .integer ['-', '1'])]⟩, [(.sub, ⟨.integer ['1'], []⟩)]⟩
  have hf : f.Spelled := by
    refine ⟨⟨⟨rfl, rfl⟩, fun x hx => ?_⟩, fun x hx => ?_⟩
    · obtain rfl := List.mem_singleton.mp hx
      exact ⟨by decide, rfl, rfl⟩
    · obtain rfl := List.mem_singleton.mp hx
      exact ⟨by decide, ⟨rfl, rfl⟩, nofun⟩
  have hparse := parseTarget_valueCode (f := f) hf rfl
  have hexact := parseTarget_exact hparse rfl .empty
  have hfails := (hexact.2.1 (.overflow "-9223372036854775808" .div "-1")).mpr (by rfl)
  exact ⟨_, hparse, rfl, by decide, hexact.2.2.mpr ⟨_, hfails⟩, hfails⟩

end Scriptorium

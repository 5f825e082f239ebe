import Scriptorium.Proofs.Value.Parts

/-!
# Element numbers are counted in machine words

Elements count from zero in a tree and from one in the texts of errors, so an
evaluation adds one to an element number when it spells a way that it has gone.
`Counted` carries evaluations out with element numbers that are machine words: a
sum that is no word stops everything. Where every array has fewer elements than
there are words, that never happens, whatever numbers the tree holds: a number
is spelled only behind the element itself.
-/

namespace Scriptorium

/-- An evaluation that stops without any result where a number is no machine word. -/
abbrev Counted := ExceptT EvalError Option

namespace Counted

/-- The result of an evaluation that does not count. -/
def of {α : Type} (x : Except EvalError α) : Counted α := ExceptT.mk (some x)

/-- The next number, when it is a word. -/
def next (n : Nat) : Counted Nat :=
  if n + 1 < UInt64.size then of (.ok (n + 1)) else ExceptT.mk none

/-- The step as an expression spells it. -/
def stepText : Step → Counted String
  | .field name => of (.ok ("." ++ name))
  | .index n => do return s!"[{← next n}]"

/-- The access as an expression spells it. -/
def accessText (a : Access) : Counted String :=
  a.steps.foldlM (fun text s => do return text ++ (← stepText s)) a.head

/-- The part of a value at the end of several steps. -/
def follow (path : String) : Value → List Step → Counted Value
  | v, [] => of (.ok v)
  | v, s :: rest => do
    let part ← of (Evaluate.step path v s)
    follow (path ++ (← stepText s)) part rest

/-- The value that an access finds. -/
def resolve (table : VariableTable) (a : Access) : Counted Value :=
  match table.get? a.head with
  | none => of (.error (.unknownVariable a.head))
  | some v => follow a.head v.value a.steps

/-- The value that an access finds, when it is of a primitive type. The access is spelled only
when the value is of another one. -/
def read (table : VariableTable) (a : Access) (kind : PrimitiveKind) : Counted Value := do
  match kind, ← resolve table a with
  | _, .null => throw (.nullValue (← accessText a))
  | .integer, .integer n => return .integer n
  | .decimal, .decimal d => return .decimal d
  | .boolean, .boolean b => return .boolean b
  | .string, .string s => return .string s
  | .decimal, .integer n => return .decimal (Decimal.ofInt n.toInt)
  | kind, other => throw (.wrongType (← accessText a) other.text kind)

/-- The value of a tree. -/
def node (table : VariableTable) : Node → Counted Value
  | .literal v => of (.ok v)
  | .null => of (.ok .null)
  | .reference a => resolve table a
  | .read a kind => read table a kind
  | .binary op lhs rhs => do
    let left ← node table lhs
    match Evaluate.decided? op left with
    | some v => return v
    | none => of (Evaluate.apply op left (← node table rhs))

/-- The value of an expression. -/
def expr (table : VariableTable) (e : TargetExpr) : Counted Value := node table e.root

end Counted

/-- Every array in the value has fewer elements than there are words. -/
def Value.Addressable (v : Value) : Prop :=
  ∀ items, .array items ∈ v.parts → items.length < UInt64.size

/-- Every array in a variable has fewer elements than there are words. -/
def VariableTable.Addressable (t : VariableTable) : Prop :=
  ∀ name v, t.get? name = some v → v.value.Addressable

theorem Value.Addressable.part {v w : Value} (h : v.Addressable) (hw : w ∈ v.parts) :
    w.Addressable := fun items hitems => h items (Value.parts_subset v hw hitems)

namespace Counted

variable {table : VariableTable} {v w : Value} {α β : Type}

/-- What every step of a loop yields without counting, the loop does. -/
theorem foldlM_of {f : β → α → Counted β} {g : β → α → β} {as : List α}
    (h : ∀ a ∈ as, ∀ b, f b a = of (.ok (g b a))) (b : β) :
    as.foldlM f b = of (.ok (as.foldl g b)) := by
  induction as generalizing b with
  | nil => rfl
  | cons a as ih =>
    rw [List.foldlM_cons, h a List.mem_cons_self]
    exact ih (fun a' ha' => h a' (List.mem_cons_of_mem _ ha')) _

/-- The number of an element that is there can be counted from one. -/
theorem stepText_eq (hv : v.Addressable) {path : String} {s : Step}
    (h : Evaluate.step path v s = .ok w) : stepText s = of (.ok s.text) := by
  cases s with
  | field name => rfl
  | index n =>
    obtain ⟨items, rfl, hitem⟩ := Evaluate.step_index_eq_ok h
    have hlength := hv items (Value.self_mem_parts _)
    have hn : n < items.length := (List.getElem?_eq_some_iff.mp hitem).choose
    rw [stepText, next, if_pos (by omega)]
    rfl

theorem follow_eq (hv : v.Addressable) (path : String) (steps : List Step) :
    follow path v steps = of (Evaluate.follow path v steps) := by
  induction steps generalizing v path with
  | nil => rfl
  | cons s rest ih =>
    rw [follow, Evaluate.follow]
    cases hs : Evaluate.step path v s with
    | error cause => rfl
    | ok part =>
      have hrest := ih (hv.part (Evaluate.step_mem_parts hs)) (path ++ s.text)
      rw [stepText_eq hv hs]
      exact hrest

/-- Behind the steps of an access its whole spelling can be counted. -/
theorem stepText_of_follow (hv : v.Addressable) {path : String} {steps : List Step}
    (h : Evaluate.follow path v steps = .ok w) : ∀ s ∈ steps, stepText s = of (.ok s.text) := by
  induction steps generalizing v path with
  | nil => nofun
  | cons s rest ih =>
    rw [Evaluate.follow] at h
    cases hs : Evaluate.step path v s with
    | error cause =>
      rw [hs] at h
      cases h
    | ok part =>
      rw [hs] at h
      refine List.forall_mem_cons.mpr ⟨stepText_eq hv hs, ?_⟩
      exact ih (hv.part (Evaluate.step_mem_parts hs)) h

theorem resolve_eq (ht : table.Addressable) (a : Access) :
    resolve table a = of (Evaluate.resolve table a) := by
  unfold resolve Evaluate.resolve
  cases hv : table.get? a.head with
  | none => rfl
  | some v => exact follow_eq (ht _ v hv) _ _

theorem accessText_eq (ht : table.Addressable) {a : Access}
    (h : Evaluate.resolve table a = .ok w) : accessText a = of (.ok a.text) := by
  unfold Evaluate.resolve at h
  cases hv : table.get? a.head with
  | none =>
    rw [hv] at h
    cases h
  | some v =>
    rw [hv] at h
    refine foldlM_of (fun s hs text => ?_) a.head
    rw [stepText_of_follow (ht _ v hv) h s hs]
    rfl

theorem read_eq (ht : table.Addressable) (a : Access) (kind : PrimitiveKind) :
    read table a kind = of (Evaluate.read table a kind) := by
  unfold read Evaluate.read
  rw [resolve_eq ht]
  cases hv : Evaluate.resolve table a with
  | error cause => rfl
  | ok v =>
    have htext := accessText_eq ht hv
    cases kind <;> cases v <;> first
      | rfl
      | exact congrArg (· >>= fun text => throw (EvalError.nullValue text)) htext
      | exact congrArg (· >>= fun text => throw (EvalError.wrongType text _ _)) htext

theorem node_eq (ht : table.Addressable) (n : Node) :
    node table n = of (Evaluate.node table n) := by
  induction n with
  | literal v => rfl
  | null => rfl
  | reference a => exact resolve_eq ht a
  | read a kind => exact read_eq ht a kind
  | binary op lhs rhs ihl ihr =>
    rw [node, Evaluate.node, ihl]
    cases Evaluate.node table lhs with
    | error cause => rfl
    | ok left =>
      change (match Evaluate.decided? op left with
          | some v => of (.ok v)
          | none => node table rhs >>= fun right => of (Evaluate.apply op left right)) =
        of (match Evaluate.decided? op left with
          | some v => .ok v
          | none => Evaluate.node table rhs >>= fun right => Evaluate.apply op left right)
      cases Evaluate.decided? op left with
      | some v => rfl
      | none =>
        rw [ihr]
        cases Evaluate.node table rhs <;> rfl

end Counted

end Scriptorium

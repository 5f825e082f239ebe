import Scriptorium.Proofs.Expression.Typing
import Scriptorium.Proofs.Variable.Agreement
import Scriptorium.Proofs.Variable.Sound
import Scriptorium.Script.Program
import Scriptorium.Target.Evaluate
import Scriptorium.Value.Comparison

/-!
# Typed trees evaluate soundly

Over a sound table that agrees with the declarations, a typed tree yields a
value of its kind or fails for a reason that no check of the script can rule
out: a null, an element out of bounds, an overflow, a division by zero, or a
variable whose declaration the run has passed over.
-/

namespace Scriptorium

/-- The value is one that an expression of the kind yields. -/
def Value.HasKind : Value → ResultKind → Prop
  | .integer _, .primitive .integer => True
  | .decimal _, .primitive .decimal => True
  | .boolean _, .primitive .boolean => True
  | .string _, .primitive .string => True
  | .null, .null => True
  | _, .reference => True
  | _, _ => False

/-- The failures that a checked expression may come to when these declarations were passed over. -/
inductive EvalError.Expected (passed : String → Prop) : EvalError → Prop
  | nullValue (access : String) : Expected passed (.nullValue access)
  | outOfBounds (access : String) (size : Nat) : Expected passed (.outOfBounds access size)
  | overflow (lhs : String) (op : BinaryOp) (rhs : String) : Expected passed (.overflow lhs op rhs)
  | divisionByZero (lhs rhs : String) : Expected passed (.divisionByZero lhs rhs)
  | unknownVariable {name : String} (h : passed name) : Expected passed (.unknownVariable name)

namespace Evaluate

variable {types : Registry} {passed : String → Prop} {declared t : VariableTable}

/-- The evaluation yields a value with the property, or fails as expected. -/
def Safe (passed : String → Prop) (P : Value → Prop) : Except EvalError Value → Prop
  | .ok v => P v
  | .error cause => cause.Expected passed

theorem Safe.bind {P Q : Value → Prop} {x : Except EvalError Value}
    {f : Value → Except EvalError Value} (h : Safe passed P x) (k : ∀ v, P v → Safe passed Q (f v)) :
    Safe passed Q (x >>= f) := by
  cases x with
  | ok v => exact k v h
  | error cause => exact h

theorem Safe.mono {P Q : Value → Prop} {x : Except EvalError Value} (h : Safe passed P x)
    (k : ∀ v, P v → Q v) : Safe passed Q x := by
  cases x with
  | ok v => exact k v h
  | error cause => exact h

/-- A chain of fields leads to a sound value of the type of the last slot. -/
theorem follow_safe (passed : String → Prop) {v : Value} {slotType type : SemanticType}
    {fields : List String} (path : String) (hv : v.Fits slotType ∧ v.Sound types)
    (htype : Expression.slotType? types slotType fields = some type) :
    Safe passed (fun w => w.Fits type ∧ w.Sound types) (follow path v (fields.map .field)) := by
  induction fields generalizing v slotType path with
  | nil =>
    cases slotType <;>
    · cases htype
      exact hv
  | cons field fields ih =>
    obtain ⟨name, r, d, rfl, hr, hd, htype⟩ := Expression.slotType?_cons.mp htype
    rcases Value.fits_record hv.1 with rfl | ⟨entries, rfl⟩
    · exact .nullValue path
    · obtain ⟨w, hget, hw⟩ := hv.2.field hr hd
      have hstep : step path (.record name entries) (.field field) = .ok w := by
        simp only [step, hget]
      rw [List.map_cons, follow, hstep]
      exact ih _ hw htype

theorem resolve_safe (ht : t.Sound types) (h : declared.Agrees passed t) {a : Access}
    {type : SemanticType} (ha : a.Leads types declared type) :
    Safe passed (fun v => v.Fits type ∧ v.Sound types) (resolve t a) := by
  obtain ⟨w, fields, hw, hsteps, htype⟩ := ha
  unfold resolve
  rcases h.get? hw with ⟨v, hv, hsame⟩ | ⟨hnone, hpassed⟩
  · rw [hv, hsteps]
    rw [← hsame] at htype
    exact follow_safe passed a.head (ht.get? hv) htype
  · rw [hnone]
    exact .unknownVariable hpassed

theorem read_safe (ht : t.Sound types) (h : declared.Agrees passed t) {a : Access}
    {kind : PrimitiveKind} (ha : a.Leads types declared (.primitive kind)) :
    Safe passed (fun v => v.HasKind (.primitive kind) ∧ v.Sound types) (read t a kind) := by
  unfold read
  apply (resolve_safe ht h ha).bind
  rintro v ⟨hfits, hsound⟩
  cases v with
  | null => cases kind <;> exact .nullValue _
  | array items => cases kind <;> cases hfits
  | record name fields => cases kind <;> cases hfits
  | integer n =>
    cases kind with
    | integer => exact ⟨trivial, hsound⟩
    | decimal => cases hfits
    | boolean => cases hfits
    | string => cases hfits
  | decimal d =>
    cases kind with
    | decimal => exact ⟨trivial, hsound⟩
    | integer => cases hfits
    | boolean => cases hfits
    | string => cases hfits
  | boolean b =>
    cases kind with
    | boolean => exact ⟨trivial, hsound⟩
    | integer => cases hfits
    | decimal => cases hfits
    | string => cases hfits
  | string s =>
    cases kind with
    | string => exact ⟨trivial, hsound⟩
    | integer =>
      obtain ⟨n, -, hn⟩ := Option.map_eq_some_iff.mp hfits
      cases hn
    | decimal =>
      obtain ⟨d, -, hd⟩ := Option.map_eq_some_iff.mp hfits
      cases hd
    | boolean =>
      rw [Value.Fits, SemanticType.coerce?] at hfits
      split at hfits
      · cases hfits
      · split at hfits <;> cases hfits

theorem element_safe (ht : t.Sound types) (h : declared.Agrees passed t) {name : String} {n : Nat}
    (ha : declared.typeOf? name = some .array) :
    Safe passed (fun v => v.Sound types) (resolve t ⟨name, [.index n]⟩) := by
  obtain ⟨w, hw, htype⟩ := Option.map_eq_some_iff.mp ha
  unfold resolve
  rcases h.get? hw with ⟨v, hv, hsame⟩ | ⟨hnone, hpassed⟩
  · obtain ⟨hfits, hsound⟩ := ht.get? hv
    rw [hsame, htype] at hfits
    simp only [hv]
    cases hvalue : v.value with
    | null => exact .nullValue _
    | array items =>
      rw [hvalue] at hsound
      simp only [follow, step]
      cases hitem : items[n]? with
      | none => exact .outOfBounds _ _
      | some item =>
        cases hsound with
        | array hitems => exact hitems item (List.mem_of_getElem? hitem)
    | _ =>
      rw [hvalue] at hfits
      cases hfits
  · simp only [hnone]
    exact .unknownVariable hpassed

theorem integer_safe (passed : String → Prop) {op : BinaryOp} (a b : Int64)
    (hop : op ∈ Target.tightOps .integer ++ Target.looseOps .integer) :
    Safe passed (fun v => v.HasKind (.primitive .integer) ∧ v.Sound types)
      (apply op (.integer a) (.integer b)) := by
  unfold apply
  dsimp only
  split
  · exact .divisionByZero _ _
  · have hresult : ∃ r, integerOp? a b op = some r := by
      cases op with
      | and => exact absurd hop (by decide)
      | or => exact absurd hop (by decide)
      | _ => exact ⟨_, rfl⟩
    obtain ⟨r, hr⟩ := hresult
    rw [hr]
    cases r with
    | none => exact .overflow _ _ _
    | some n => exact ⟨trivial, .integer n⟩

theorem decimal_safe (passed : String → Prop) {op : BinaryOp} (a b : Decimal)
    (hop : op ∈ Target.tightOps .decimal ++ Target.looseOps .decimal) :
    Safe passed (fun v => v.HasKind (.primitive .decimal) ∧ v.Sound types)
      (apply op (.decimal a) (.decimal b)) := by
  unfold apply
  dsimp only
  split
  · exact .divisionByZero _ _
  · have hresult : ∃ r, decimalOp? a b op = some r := by
      cases op with
      | and => exact absurd hop (by decide)
      | or => exact absurd hop (by decide)
      | _ => exact ⟨_, rfl⟩
    obtain ⟨r, hr⟩ := hresult
    rw [hr]
    dsimp only
    split
    · next hfinite =>
      have hnan : r ≠ .nan := by
        rintro rfl
        cases hfinite
      exact ⟨trivial, .decimal hnan⟩
    · exact .overflow _ _ _

/-- Values of one kind are combined by the operations of the kind. -/
theorem apply_safe (passed : String → Prop) {op : BinaryOp} {kind : PrimitiveKind} {lhs rhs : Value}
    (hop : op ∈ Target.tightOps kind ++ Target.looseOps kind)
    (hl : lhs.HasKind (.primitive kind)) (hr : rhs.HasKind (.primitive kind)) :
    Safe passed (fun v => v.HasKind (.primitive kind) ∧ v.Sound types) (apply op lhs rhs) := by
  cases kind with
  | integer =>
    obtain ⟨a, rfl⟩ : ∃ a, lhs = .integer a := by cases lhs <;> first | exact ⟨_, rfl⟩ | cases hl
    obtain ⟨b, rfl⟩ : ∃ b, rhs = .integer b := by cases rhs <;> first | exact ⟨_, rfl⟩ | cases hr
    exact integer_safe passed a b hop
  | decimal =>
    obtain ⟨a, rfl⟩ : ∃ a, lhs = .decimal a := by cases lhs <;> first | exact ⟨_, rfl⟩ | cases hl
    obtain ⟨b, rfl⟩ : ∃ b, rhs = .decimal b := by cases rhs <;> first | exact ⟨_, rfl⟩ | cases hr
    exact decimal_safe passed a b hop
  | boolean =>
    obtain ⟨a, rfl⟩ : ∃ a, lhs = .boolean a := by cases lhs <;> first | exact ⟨_, rfl⟩ | cases hl
    obtain ⟨b, rfl⟩ : ∃ b, rhs = .boolean b := by cases rhs <;> first | exact ⟨_, rfl⟩ | cases hr
    cases op with
    | and => exact ⟨trivial, .boolean _⟩
    | or => exact ⟨trivial, .boolean _⟩
    | _ => exact absurd hop (by decide)
  | string =>
    obtain ⟨a, rfl⟩ : ∃ a, lhs = .string a := by cases lhs <;> first | exact ⟨_, rfl⟩ | cases hl
    obtain ⟨b, rfl⟩ : ∃ b, rhs = .string b := by cases rhs <;> first | exact ⟨_, rfl⟩ | cases hr
    cases op with
    | add => exact ⟨trivial, .string _⟩
    | _ => exact absurd hop (by decide)

/-- A first operand that decides is a truth value, and so is what it decides. -/
theorem decided?_sound {op : BinaryOp} {kind : PrimitiveKind} {left v : Value}
    (h : decided? op left = some v) (hleft : left.HasKind (.primitive kind)) :
    v.HasKind (.primitive kind) ∧ v.Sound types := by
  unfold decided? at h
  split at h
  · cases h
    exact ⟨hleft, .boolean _⟩
  · cases h
    exact ⟨hleft, .boolean _⟩
  · cases h

/-- A typed tree yields a sound value of its kind, or fails as expected. -/
theorem node_safe (ht : t.Sound types) (h : declared.Agrees passed t) {n : Node} {kind : ResultKind}
    (hn : n.Typed types declared kind) :
    Safe passed (fun v => v.HasKind kind ∧ v.Sound types) (node t n) := by
  induction hn with
  | integer n => exact ⟨trivial, .integer n⟩
  | decimal hd => exact ⟨trivial, .decimal hd⟩
  | boolean b => exact ⟨trivial, .boolean b⟩
  | string s => exact ⟨trivial, .string s⟩
  | null => exact ⟨trivial, .null⟩
  | read ha => exact read_safe ht h ha
  | slot ha =>
    apply (resolve_safe ht h ha).mono
    intro v hv
    exact ⟨by cases v <;> trivial, hv.2⟩
  | element ha =>
    apply (element_safe ht h ha).mono
    intro v hv
    exact ⟨by cases v <;> trivial, hv⟩
  | binary hop _ _ ihl ihr =>
    rw [node]
    apply ihl.bind
    rintro left ⟨hleft, hsound⟩
    split
    · next v hdecided => exact decided?_sound hdecided hleft
    · apply ihr.bind
      rintro right ⟨hright, -⟩
      exact apply_safe passed hop hleft hright

end Evaluate

namespace SemanticType

variable {types : Registry}

/-- A value of an accepted kind can be stored, unless it comes from a reference. -/
theorem coerce_of_accepts {type : SemanticType} {kind : ResultKind} {v : Value}
    (haccepts : type.accepts kind = true) (hkind : v.HasKind kind) :
    kind = .reference ∨ ∃ w, type.coerce? v = some w := by
  cases kind with
  | reference => exact .inl rfl
  | null =>
    obtain rfl : v = .null := by cases v <;> first | rfl | cases hkind
    exact .inr ⟨_, Value.null_fits type⟩
  | primitive k =>
    right
    cases type with
    | array => cases k <;> cases haccepts
    | record name => cases k <;> cases haccepts
    | primitive t =>
      cases t <;> cases k <;> cases haccepts <;> cases v <;>
        first | exact ⟨_, rfl⟩ | cases hkind

end SemanticType

namespace Value

variable {types : Registry}

theorem place?_of_sound {d : Decimal} (h : (Value.decimal d).Sound types) :
    ∃ x, d.place? = some x := by
  cases h with
  | decimal hd =>
    cases d with
    | nan => exact absurd rfl hd
    | _ => exact ⟨_, rfl⟩

theorem numeric_of_hasKind {kind : ResultKind} {v : Value} (hkind : kind.isNumeric = true)
    (h : v.HasKind kind) : (∃ n, v = .integer n) ∨ ∃ d, v = .decimal d := by
  cases kind with
  | reference => cases hkind
  | null => cases hkind
  | primitive k =>
    cases k with
    | integer => cases v <;> first | exact .inl ⟨_, rfl⟩ | cases h
    | decimal => cases v <;> first | exact .inr ⟨_, rfl⟩ | cases h
    | boolean => cases hkind
    | string => cases hkind

/-- Sound values of comparable kinds have an order. -/
theorem compare?_of_comparable {left right : ResultKind} {a b : Value}
    (h : Comparison.lessOrEqual.comparable left right = true) (ha : a.HasKind left)
    (hb : b.HasKind right) (hsa : a.Sound types) (hsb : b.Sound types) :
    ∃ order, a.compare? b = some order := by
  have hdecimal {x y : Decimal} (hx : (Value.decimal x).Sound types)
      (hy : (Value.decimal y).Sound types) : ∃ order, x.compare? y = some order := by
    obtain ⟨p, hp⟩ := place?_of_sound hx
    obtain ⟨q, hq⟩ := place?_of_sound hy
    exact ⟨compare p q, by simp [Decimal.compare?, hp, hq]⟩
  have hinteger (n : Int64) : (Value.decimal (Decimal.ofInt n.toInt)).Sound types :=
    .decimal (Decimal.ofInt_ne_nan _)
  unfold Comparison.comparable at h
  rcases Bool.or_eq_true_iff.mp h with hnumeric | hstring
  · obtain ⟨hleft, hright⟩ := Bool.and_eq_true_iff.mp hnumeric
    rcases numeric_of_hasKind hleft ha with ⟨n, rfl⟩ | ⟨x, rfl⟩
    · rcases numeric_of_hasKind hright hb with ⟨m, rfl⟩ | ⟨y, rfl⟩
      · exact ⟨_, rfl⟩
      · exact hdecimal (hinteger n) hsb
    · rcases numeric_of_hasKind hright hb with ⟨m, rfl⟩ | ⟨y, rfl⟩
      · exact hdecimal hsa (hinteger m)
      · exact hdecimal hsa hsb
  · obtain ⟨hleft, hright⟩ := Bool.and_eq_true_iff.mp hstring
    obtain rfl := of_decide_eq_true hleft
    obtain rfl := of_decide_eq_true hright
    obtain ⟨s, rfl⟩ : ∃ s, a = .string s := by cases a <;> first | exact ⟨_, rfl⟩ | cases ha
    obtain ⟨u, rfl⟩ : ∃ u, b = .string u := by cases b <;> first | exact ⟨_, rfl⟩ | cases hb
    exact ⟨_, rfl⟩

end Value

end Scriptorium

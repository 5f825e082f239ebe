import Scriptorium.Proofs.Target.Safety

/-!
# Truth values are computed by a scan of the written operands

A statement that returns a truth value is written as groups joined by `||`, each
of operands joined by `&&`. Its tree nests to the left in both layers, and its
evaluation is a scan: a group is left at its first false operand, and the scan ends
at the first group that has none. Only operands that the scan reaches are read, so
no other can make the evaluation fail.
-/

namespace Scriptorium

open Target

/-! ## Written groups and their trees -/

/-- The tokens of operands joined by `&&` in groups joined by `||`. -/
def Operand.groupsTokens (groups : List (List Operand)) : List (List Char) :=
  List.intercalate ["||".toList]
    (groups.map fun group => List.intercalate ["&&".toList] (group.map Operand.tokens))

/-- The nodes joined by the operation, nested to the left. -/
def Node.join (op : BinaryOp) : List Node → Node
  | [] => .null
  | n :: ns => ns.foldl (.binary op) n

namespace Chain

variable {α : Type} {op : BinaryOp} {good : α → Prop}

/-- Where a layer has one operation, its symbol stands between the items. -/
theorem Spelled.tokens_eq {c : Chain α} (h : c.Spelled [op] good) (item : α → List (List Char)) :
    c.tokens item = List.intercalate [op.symbol.toList] (c.items.map item) := by
  have hlinks : ∀ (rest : List (BinaryOp × α)) (first : α), (∀ x ∈ rest, x.1 ∈ [op]) →
      Chain.tokens item ⟨first, rest⟩ =
        List.intercalate [op.symbol.toList] ((Chain.items ⟨first, rest⟩).map item) := by
    intro rest
    induction rest with
    | nil => simp [tokens, items, List.intercalate]
    | cons x rest ih =>
      intro first hops
      obtain ⟨hx, hops⟩ := List.forall_mem_cons.mp hops
      have htail := ih x.2 hops
      simp only [tokens, items, List.intercalate, List.map_cons, List.flatMap_cons,
        List.intersperse_cons_cons, List.flatten_cons, List.mem_singleton.mp hx] at htail ⊢
      rw [← htail]
      simp
  exact hlinks c.rest c.first fun x hx => (h.2 x hx).1

theorem links_eq_ok {links : List (BinaryOp × α)} {tree : α → Except RangeError Node}
    {lhs n : Node} (hops : ∀ x ∈ links, x.1 ∈ [op]) (hn : links.foldlM (link tree) lhs = .ok n) :
    ∃ ns, List.Forall₂ (fun a m => tree a = .ok m) (links.map Prod.snd) ns ∧
      n = ns.foldl (.binary op) lhs := by
  induction links generalizing lhs with
  | nil =>
    cases hn
    exact ⟨[], .nil, rfl⟩
  | cons x links ih =>
    obtain ⟨hx, hops⟩ := List.forall_mem_cons.mp hops
    rw [List.foldlM_cons, link, List.mem_singleton.mp hx] at hn
    cases hrhs : tree x.2 with
    | error cause =>
      rw [hrhs] at hn
      cases hn
    | ok rhs =>
      rw [hrhs] at hn
      obtain ⟨ns, hns, rfl⟩ := ih hops hn
      exact ⟨rhs :: ns, .cons hrhs hns, rfl⟩

/-- The tree of a layer with one operation joins the trees of its items. -/
theorem Spelled.fold_eq_ok {c : Chain α} {tree : α → Except RangeError Node} {n : Node}
    (h : c.Spelled [op] good) (hn : c.fold tree = .ok n) :
    ∃ ns, List.Forall₂ (fun a m => tree a = .ok m) c.items ns ∧ n = Node.join op ns := by
  rw [fold_eq] at hn
  cases hfirst : tree c.first with
  | error cause =>
    rw [hfirst] at hn
    cases hn
  | ok lhs =>
    rw [hfirst] at hn
    obtain ⟨ns, hns, rfl⟩ := links_eq_ok (fun x hx => (h.2 x hx).1) hn
    exact ⟨lhs :: ns, .cons hfirst hns, rfl⟩

end Chain

/-! ## Scans -/

namespace Evaluate

/-- The scan of several items in order stops at the first one with this truth value and has it as
result. -/
def scan {ε α : Type} (stop : Bool) (value : α → Except ε Bool) : List α → Except ε Bool
  | [] => .ok !stop
  | a :: as => do
    if (← value a) = stop then return stop
    else scan stop value as

/-- The truth value of an operand. -/
def truth (t : VariableTable) (leaf : Node) : Except EvalError Bool := do
  match ← node t leaf with
  | .boolean b => return b
  | _ => return false

/-- The scan of groups of operands. -/
def scanGroups (t : VariableTable) (leaves : List (List Node)) : Except EvalError Bool :=
  scan true (scan false (truth t)) leaves

/-- The scan of groups comes to this operand. -/
def Reached (t : VariableTable) (leaves : List (List Node)) (leaf : Node) : Prop :=
  ∃ earlier before after later, leaves = earlier ++ (before ++ leaf :: after) :: later ∧
    (∀ group ∈ earlier, scan false (truth t) group = .ok false) ∧
    ∀ operand ∈ before, truth t operand = .ok true

section Scan

variable {ε α β : Type} {stop : Bool} {value : α → Except ε Bool}

theorem scan_cons_ok {a : α} {as : List α} {b : Bool} (h : value a = .ok b) :
    scan stop value (a :: as) = if b = stop then .ok stop else scan stop value as := by
  rw [scan, h]
  rfl

theorem scan_cons_error {a : α} {as : List α} {cause : ε} (h : value a = .error cause) :
    scan stop value (a :: as) = .error cause := by
  rw [scan, h]
  rfl

/-- An item may stand for several that are scanned for its value. -/
theorem scan_cons_of_eq {a : α} {before after : List α} (h : value a = scan stop value before) :
    scan stop value (a :: after) = scan stop value (before ++ after) := by
  rw [scan, h]
  clear h
  induction before with
  | nil => cases stop <;> rfl
  | cons b before ih =>
    rw [List.cons_append]
    cases hb : value b with
    | error cause =>
      rw [scan_cons_error hb, scan_cons_error hb]
      rfl
    | ok c =>
      rw [scan_cons_ok hb, scan_cons_ok hb]
      split
      · exact if_pos rfl
      · exact ih

theorem scan_map {f : α → β} {value : β → Except ε Bool} {value' : α → Except ε Bool}
    {as : List α} (h : ∀ a ∈ as, value (f a) = value' a) :
    scan stop value (as.map f) = scan stop value' as := by
  induction as with
  | nil => rfl
  | cons a as ih =>
    rw [List.map_cons, scan, scan, h a List.mem_cons_self, ih fun a ha => h a (.tail _ ha)]

/-- A scan fails as the first item does that fails, where none before it stops the scan. -/
theorem scan_eq_error_iff {as : List α} {cause : ε} :
    scan stop value as = .error cause ↔ ∃ before a after, as = before ++ a :: after ∧
      (∀ b ∈ before, value b = .ok !stop) ∧ value a = .error cause := by
  induction as with
  | nil => simp [scan]
  | cons a as ih =>
    cases ha : value a with
    | error cause' =>
      rw [scan_cons_error ha]
      constructor
      · rintro ⟨⟩
        exact ⟨[], a, as, rfl, nofun, ha⟩
      · rintro ⟨_ | ⟨b, before⟩, a', after, hsplit, hbefore, ha'⟩
        · cases hsplit
          rw [← ha, ha']
        · cases hsplit
          have hb := (List.forall_mem_cons.mp hbefore).1
          rw [ha] at hb
          cases hb
    | ok b =>
      rw [scan_cons_ok ha]
      by_cases hb : b = stop
      · rw [if_pos hb]
        refine ⟨nofun, ?_⟩
        rintro ⟨_ | ⟨b', before⟩, a', after, hsplit, hbefore, ha'⟩
        · cases hsplit
          rw [ha] at ha'
          cases ha'
        · cases hsplit
          have hb' := (List.forall_mem_cons.mp hbefore).1
          rw [ha, hb] at hb'
          cases stop <;> cases hb'
      · rw [if_neg hb, ih]
        have hvalue : value a = .ok !stop := by
          rw [ha]
          cases b <;> cases stop <;> first
            | rfl
            | exact absurd rfl hb
        constructor
        · rintro ⟨before, a', after, rfl, hbefore, ha'⟩
          exact ⟨a :: before, a', after, rfl, List.forall_mem_cons.mpr ⟨hvalue, hbefore⟩, ha'⟩
        · rintro ⟨_ | ⟨b', before⟩, a', after, hsplit, hbefore, ha'⟩
          · cases hsplit
            rw [ha] at ha'
            cases ha'
          · cases hsplit
            exact ⟨before, a', after, rfl, (List.forall_mem_cons.mp hbefore).2, ha'⟩

end Scan

/-- The scan of groups fails exactly as an operand does that it reaches. -/
theorem scanGroups_eq_error_iff {t : VariableTable} {leaves : List (List Node)}
    {cause : EvalError} :
    scanGroups t leaves = .error cause ↔
      ∃ leaf, Reached t leaves leaf ∧ truth t leaf = .error cause := by
  rw [scanGroups, scan_eq_error_iff]
  constructor
  · rintro ⟨earlier, group, later, rfl, hearlier, hgroup⟩
    obtain ⟨before, leaf, after, rfl, hbefore, hleaf⟩ := scan_eq_error_iff.mp hgroup
    exact ⟨leaf, ⟨earlier, before, after, later, rfl, hearlier, hbefore⟩, hleaf⟩
  · rintro ⟨leaf, ⟨earlier, before, after, later, rfl, hearlier, hbefore⟩, hleaf⟩
    refine ⟨earlier, _, later, rfl, hearlier, ?_⟩
    exact scan_eq_error_iff.mpr ⟨before, leaf, after, rfl, hbefore, hleaf⟩

/-! ## Trees of truth values -/

variable {t : VariableTable}

/-- The operation that the scan with this stop computes. -/
def scanOp : Bool → BinaryOp
  | false => .and
  | true => .or

theorem node_eq_truth {n : Node} (h : n.Computes .boolean) (t : VariableTable) :
    node t n = (truth t n).map .boolean := by
  have hproper := node_proper h t
  unfold truth
  cases hn : node t n with
  | error cause => rfl
  | ok v =>
    rw [hn] at hproper
    cases v with
    | boolean b => rfl
    | _ => cases hproper

/-- An operation looks at its operands as a scan does. -/
theorem truth_binary {lhs rhs : Node} (stop : Bool) (hl : lhs.Computes .boolean)
    (hr : rhs.Computes .boolean) :
    truth t (.binary (scanOp stop) lhs rhs) = scan stop (truth t) [lhs, rhs] := by
  have hleft := node_eq_truth hl t
  have hright := node_eq_truth hr t
  rw [truth, node, hleft, scan, scan, scan]
  cases truth t lhs with
  | error cause => rfl
  | ok a =>
    cases stop <;> cases a <;> first
      | rfl
      | rw [hright]
        cases truth t rhs with
        | error cause => rfl
        | ok b => cases b <;> rfl

theorem scanOp_mem (stop : Bool) : scanOp stop ∈ tightOps .boolean ++ looseOps .boolean := by
  cases stop <;> decide

theorem join_computes {ns : List Node} (stop : Bool) (hns : ns ≠ [])
    (h : ∀ n ∈ ns, n.Computes .boolean) : (Node.join (scanOp stop) ns).Computes .boolean := by
  cases ns with
  | nil => exact absurd rfl hns
  | cons n ns =>
    rw [Node.join]
    clear hns
    induction ns generalizing n with
    | nil => exact h n List.mem_cons_self
    | cons m ns ih =>
      obtain ⟨hn, h⟩ := List.forall_mem_cons.mp h
      obtain ⟨hm, h⟩ := List.forall_mem_cons.mp h
      exact ih _ (List.forall_mem_cons.mpr ⟨.binary (scanOp_mem stop) hn hm, h⟩)

/-- Operands that are joined are scanned in order. -/
theorem truth_join {ns : List Node} (stop : Bool) (hns : ns ≠ [])
    (h : ∀ n ∈ ns, n.Computes .boolean) :
    truth t (Node.join (scanOp stop) ns) = scan stop (truth t) ns := by
  cases ns with
  | nil => exact absurd rfl hns
  | cons n ns =>
    rw [Node.join]
    clear hns
    induction ns generalizing n with
    | nil =>
      rw [List.foldl_nil]
      cases hn : truth t n with
      | error cause => rw [scan_cons_error hn]
      | ok b =>
        rw [scan_cons_ok hn]
        cases b <;> cases stop <;> rfl
    | cons m ns ih =>
      -- What is joined so far is the left operand of the next operation.
      obtain ⟨hn, h⟩ := List.forall_mem_cons.mp h
      obtain ⟨hm, h⟩ := List.forall_mem_cons.mp h
      rw [List.foldl_cons,
        ih _ (List.forall_mem_cons.mpr ⟨.binary (scanOp_mem stop) hn hm, h⟩)]
      exact scan_cons_of_eq (truth_binary stop hn hm)

/-- Groups that are joined are scanned in order, and so are the operands of each. -/
theorem truth_join_groups {leaves : List (List Node)} (hne : leaves ≠ [])
    (h : ∀ group ∈ leaves, group ≠ [] ∧ ∀ leaf ∈ group, leaf.Computes .boolean) :
    truth t (Node.join .or (leaves.map (Node.join .and))) = scanGroups t leaves := by
  have hgroups : ∀ n ∈ leaves.map (Node.join .and), n.Computes .boolean := by
    intro n hn
    obtain ⟨group, hgroup, rfl⟩ := List.mem_map.mp hn
    exact join_computes false (h group hgroup).1 (h group hgroup).2
  calc truth t (Node.join .or (leaves.map (Node.join .and)))
      = scan true (truth t) (leaves.map (Node.join .and)) :=
        truth_join true (fun hnil => hne (List.map_eq_nil_iff.mp hnil)) hgroups
    _ = scan true (scan false (truth t)) leaves :=
        scan_map fun group hgroup => truth_join false (h group hgroup).1 (h group hgroup).2

end Evaluate

theorem Operand.leaves_compute {kind : PrimitiveKind} {group : List Operand} {leaves : List Node}
    (hgroup : ∀ o ∈ group, o.Spelled kind)
    (h : List.Forall₂ (fun o leaf => o.node = .ok leaf) group leaves) :
    ∀ leaf ∈ leaves, leaf.Computes kind := by
  induction h with
  | nil => exact nofun
  | cons ho _ ih =>
    obtain ⟨hspelled, hgroup⟩ := List.forall_mem_cons.mp hgroup
    exact List.forall_mem_cons.mpr ⟨Operand.computes hspelled ho, ih hgroup⟩

/-- The trees of groups of operands join the leaves of the operands. -/
theorem Operand.exists_leaves {gs : List (Chain Operand)} {ns : List Node}
    (hgs : ∀ g ∈ gs, g.Spelled [.and] (Operand.Spelled .boolean))
    (h : List.Forall₂ (fun g m => g.fold Operand.node = .ok m) gs ns) :
    ∃ leaves, List.Forall₂ (List.Forall₂ fun o leaf => o.node = .ok leaf) (gs.map Chain.items)
        leaves ∧
      ns = leaves.map (Node.join .and) ∧
      ∀ group ∈ leaves, group ≠ [] ∧ ∀ leaf ∈ group, leaf.Computes .boolean := by
  induction h with
  | nil => exact ⟨[], .nil, rfl, nofun⟩
  | @cons g n gs ns hg _ ih =>
    obtain ⟨hspelled, hgs⟩ := List.forall_mem_cons.mp hgs
    obtain ⟨leaves, hleaves, rfl, hcomputes⟩ := ih hgs
    obtain ⟨group, hgroup, rfl⟩ := hspelled.fold_eq_ok hg
    have hne : group ≠ [] := by
      rintro rfl
      cases hgroup
    have hleaf := leaves_compute hspelled.of_mem_items hgroup
    exact ⟨group :: leaves, .cons hgroup hleaves, rfl,
      List.forall_mem_cons.mpr ⟨⟨hne, hleaf⟩, hcomputes⟩⟩

theorem Operand.groupsTokens_eq {c : Chain (Chain Operand)}
    (hc : c.Spelled [.or] (Chain.Spelled [.and] (Operand.Spelled .boolean))) :
    c.tokens (Chain.tokens Operand.tokens) = groupsTokens (c.items.map Chain.items) := by
  rw [hc.tokens_eq, groupsTokens, List.map_map]
  congr 1
  exact List.map_congr_left fun g hg => (hc.of_mem_items g hg).tokens_eq _

/-- An expression of a primitive kind is that of a formula of the kind. -/
theorem Formula.eq_computed {f : Formula} {e : TargetExpr} {kind : PrimitiveKind}
    (h : f.expr = .ok e) (hkind : e.kind = .primitive kind) :
    ∃ c, f = .computed kind c ∧ c.fold (Chain.fold Operand.node) = .ok e.root := by
  cases f with
  | computed kind' c =>
    obtain ⟨root, hroot, rfl⟩ := computed_expr_eq_ok.mp h
    cases hkind
    exact ⟨c, rfl, hroot⟩
  | reference access =>
    obtain ⟨a, -, rfl⟩ := reference_expr_eq_ok.mp h
    cases hkind
  | null =>
    cases h
    cases hkind

/-- A truth value is computed by the scan of the operands that are written, and it fails only as
an operand does that the scan reaches. -/
theorem Target.parseTarget_scan {text : List Char} {e : TargetExpr}
    (h : parseTarget text = .ok e) (hkind : e.kind = .primitive .boolean) :
    ∃ groups leaves,
      Laid (["return".toList, "bool".toList, "(".toList] ++ Operand.groupsTokens groups ++
        [")".toList, ";".toList]) text [] ∧
      groups ≠ [] ∧ (∀ group ∈ groups, group ≠ [] ∧ ∀ o ∈ group, o.Spelled .boolean) ∧
      List.Forall₂ (List.Forall₂ fun o leaf => o.node = .ok leaf) groups leaves ∧
      ∀ t, Evaluate.expr t e = (Evaluate.scanGroups t leaves).map .boolean ∧
        ∀ cause, Evaluate.expr t e = .error cause ↔
          ∃ leaf, Evaluate.Reached t leaves leaf ∧ Evaluate.truth t leaf = .error cause := by
  obtain ⟨f, hf, he⟩ := parseTarget_eq_ok.mp h
  obtain ⟨hspelled, hlaid⟩ := parseFormula_laid hf
  obtain ⟨c, rfl, hroot⟩ := Formula.eq_computed he hkind
  have hc : c.Spelled [.or] (Chain.Spelled [.and] (Operand.Spelled .boolean)) := hspelled
  obtain ⟨ns, htrees, hjoin⟩ := hc.fold_eq_ok hroot
  obtain ⟨leaves, hleaves, rfl, hcomputes⟩ := Operand.exists_leaves hc.of_mem_items htrees
  refine ⟨c.items.map Chain.items, leaves, ?_, by simp [Chain.items], ?_, hleaves, fun t => ?_⟩
  · rw [← Operand.groupsTokens_eq hc]
    simpa [Formula.tokens, Formula.valueTokens, PrimitiveKind.accessor] using hlaid
  · intro group hgroup
    obtain ⟨g, hg, rfl⟩ := List.mem_map.mp hgroup
    exact ⟨List.cons_ne_nil _ _, (hc.of_mem_items g hg).of_mem_items⟩
  · have hne : leaves ≠ [] := by
      rintro rfl
      cases hleaves
    have hexpr : Evaluate.expr t e = (Evaluate.scanGroups t leaves).map .boolean := by
      rw [Evaluate.expr, Evaluate.node_eq_truth ((parseTarget_formed h).computes hkind), hjoin,
        Evaluate.truth_join_groups hne hcomputes]
    refine ⟨hexpr, fun cause => ?_⟩
    rw [hexpr, ← Evaluate.scanGroups_eq_error_iff]
    cases Evaluate.scanGroups t leaves <;> simp [Except.map]

/-- A variable that is not there does no harm behind a false operand. -/
theorem Target.parseTarget_scan_unread :
    ∃ e groups leaves,
      parseTarget "return bool(false && var(\"X\").bool() || true);".toList = .ok e ∧
      e.kind = .primitive .boolean ∧
      Laid (["return".toList, "bool".toList, "(".toList] ++ Operand.groupsTokens groups ++
        [")".toList, ";".toList]) "return bool(false && var(\"X\").bool() || true);".toList [] ∧
      List.Forall₂ (List.Forall₂ fun o leaf => o.node = .ok leaf) groups leaves ∧
      Evaluate.scanGroups .empty leaves = .ok true ∧
      Evaluate.truth .empty (.read ⟨"X", []⟩ .boolean) = .error (.unknownVariable "X") := by
  let x : Operand := .read ⟨['X'], []⟩ .boolean
  let f : Formula := .computed .boolean
    ⟨⟨.boolean false, [(.and, x)]⟩, [(.or, ⟨.boolean true, []⟩)]⟩
  have hf : f.Spelled := by
    refine ⟨⟨rfl, fun y hy => ?_⟩, fun y hy => ?_⟩
    · obtain rfl := List.mem_singleton.mp hy
      exact ⟨by decide, rfl, nofun⟩
    · obtain rfl := List.mem_singleton.mp hy
      exact ⟨by decide, rfl, nofun⟩
  have hparse := parseTarget_valueCode (f := f) hf rfl
  obtain ⟨groups, leaves, hlaid, -, -, hleaves, hscan⟩ := parseTarget_scan hparse rfl
  refine ⟨_, groups, leaves, hparse, rfl, hlaid, hleaves, ?_, rfl⟩
  have hexpr := (hscan .empty).1
  cases hresult : Evaluate.scanGroups .empty leaves with
  | error cause =>
    rw [hresult] at hexpr
    cases hexpr
  | ok b =>
    rw [hresult] at hexpr
    cases hexpr
    rfl

end Scriptorium

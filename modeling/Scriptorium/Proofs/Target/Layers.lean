import Scriptorium.Proofs.Target.Statements

/-!
# The two layers of a chain

A flat chain of operands and operations falls into maximal runs joined by the
operations that bind tightly. The runs are the groups of a formula, and the
formula's code is the code of the flat chain, so the code does not show where
the groups are. A chain has a tree when all its items have one.
-/

namespace Scriptorium

/-- The operation binds its operands before sums and disjunctions bind theirs. -/
def BinaryOp.isTight : BinaryOp → Bool
  | .mul | .div | .and => true
  | .add | .sub | .or => false

namespace Chain

variable {α β : Type}

/-- The items of a chain. -/
def items (c : Chain α) : List α := c.first :: c.rest.map Prod.snd

theorem Spelled.of_mem_items {ops : List BinaryOp} {good : α → Prop} {c : Chain α}
    (h : c.Spelled ops good) : ∀ a ∈ c.items, good a := by
  intro a ha
  rcases List.mem_cons.mp ha with rfl | ha
  · exact h.1
  · obtain ⟨x, hx, rfl⟩ := List.mem_map.mp ha
    exact (h.2 x hx).2

def map (f : α → β) (c : Chain α) : Chain β := ⟨f c.first, c.rest.map fun x => (x.1, f x.2)⟩

/-- The maximal runs joined by tight operations, of a chain that begins with this item. -/
def runs (first : α) : List (BinaryOp × α) → Chain (Chain α)
  | [] => ⟨⟨first, []⟩, []⟩
  | (op, a) :: rest =>
    let later := runs a rest
    if op.isTight then ⟨⟨first, (op, later.first.first) :: later.first.rest⟩, later.rest⟩
    else ⟨⟨first, []⟩, (op, later.first) :: later.rest⟩

/-- The chain in two layers. -/
def layered (c : Chain α) : Chain (Chain α) := runs c.first c.rest

/-- The items of all groups in one chain. -/
def flatten (c : Chain (Chain α)) : Chain α :=
  ⟨c.first.first, c.first.rest ++ c.rest.flatMap fun x => (x.1, x.2.first) :: x.2.rest⟩

theorem flatten_layered (c : Chain α) : c.layered.flatten = c := by
  have h : ∀ (links : List (BinaryOp × α)) (first : α),
      (runs first links).flatten = ⟨first, links⟩ := by
    intro links
    induction links with
    | nil => exact fun _ => rfl
    | cons x links ih =>
      intro first
      obtain ⟨op, a⟩ := x
      have hlater := ih a
      simp only [flatten, Chain.mk.injEq] at hlater
      simp only [runs]
      split <;> simp [flatten, hlater]
  exact h c.rest c.first

/-- Only tight operations join the items of a run, and only others join the runs. -/
theorem layered_spelled {tight loose : List BinaryOp} {item : α → Prop} {c : Chain α}
    (htight : ∀ op ∈ tight, op.isTight = true) (hloose : ∀ op ∈ loose, op.isTight = false)
    (h : c.Spelled (tight ++ loose) item) : c.layered.Spelled loose (Chain.Spelled tight item) := by
  have hruns : ∀ (links : List (BinaryOp × α)) (first : α), item first →
      (∀ x ∈ links, x.1 ∈ tight ++ loose ∧ item x.2) →
      (runs first links).Spelled loose (Chain.Spelled tight item) := by
    intro links
    induction links with
    | nil => exact fun first hfirst _ => ⟨⟨hfirst, by simp [runs]⟩, by simp [runs]⟩
    | cons x links ih =>
      intro first hfirst hlinks
      obtain ⟨op, a⟩ := x
      obtain ⟨hop, ha⟩ := hlinks (op, a) (by simp)
      obtain ⟨⟨hgroup, hitems⟩, hgroups⟩ := ih a ha fun x hx => hlinks x (by simp [hx])
      simp only [runs]
      split
      · next hbinds =>
        have hmem : op ∈ tight := by
          rcases List.mem_append.mp hop with hmem | hmem
          · exact hmem
          · rw [hloose op hmem] at hbinds
            cases hbinds
        refine ⟨⟨hfirst, fun x hx => ?_⟩, hgroups⟩
        rcases List.mem_cons.mp hx with rfl | hx
        · exact ⟨hmem, hgroup⟩
        · exact hitems x hx
      · next hbinds =>
        have hmem : op ∈ loose := by
          rcases List.mem_append.mp hop with hmem | hmem
          · exact absurd (htight op hmem) hbinds
          · exact hmem
        refine ⟨⟨hfirst, by simp⟩, fun x hx => ?_⟩
        rcases List.mem_cons.mp hx with rfl | hx
        · exact ⟨hmem, hgroup, hitems⟩
        · exact hgroups x hx
  exact hruns c.rest c.first h.1 h.2

theorem layered_map (f : α → β) (c : Chain α) : (c.map f).layered = c.layered.map (map f) := by
  have h : ∀ (links : List (BinaryOp × α)) (first : α),
      runs (f first) (links.map fun x => (x.1, f x.2)) = (runs first links).map (map f) := by
    intro links
    induction links with
    | nil => exact fun _ => rfl
    | cons x links ih =>
      intro first
      obtain ⟨op, a⟩ := x
      simp only [runs, List.map_cons, ih a]
      split <;> simp [map]
  exact h c.rest c.first

/-- The code of a chain of groups is that of the flat chain. -/
theorem code_flatten (item : α → List Char) (c : Chain (Chain α)) :
    c.flatten.code item = c.code (code item) := by
  simp [flatten, code, List.flatMap_assoc, List.flatMap_append]

theorem code_layered (item : α → List Char) (c : Chain α) :
    c.layered.code (code item) = c.code item := by
  rw [← code_flatten, flatten_layered]

/-- The tree of a chain whose items all have one, folded from the left. -/
def tree (leaf : α → Node) (c : Chain α) : Node :=
  c.rest.foldl (fun lhs x => .binary x.1 lhs (leaf x.2)) (leaf c.first)

theorem tree_map (leaf : β → Node) (f : α → β) (c : Chain α) :
    (c.map f).tree leaf = c.tree fun a => leaf (f a) := by
  simp [tree, map, List.foldl_map]

theorem items_flatten (c : Chain (Chain α)) : c.flatten.items = c.items.flatMap items := by
  simp [flatten, items, List.map_flatMap, List.flatMap_map]

theorem mem_group_items {c : Chain α} {g : Chain α} {a : α} (hg : g ∈ c.layered.items)
    (ha : a ∈ g.items) : a ∈ c.items := by
  rw [← flatten_layered c, items_flatten]
  exact List.mem_flatMap.mpr ⟨g, hg, ha⟩

section Fold

variable {item : α → Except RangeError Node} {leaf : α → Node}

/-- One more operand behind those that are folded. -/
def link (item : α → Except RangeError Node) (lhs : Node) (x : BinaryOp × α) :
    Except RangeError Node := do
  let rhs ← item x.2
  return .binary x.1 lhs rhs

theorem fold_eq (c : Chain α) :
    c.fold item = (do
      let first ← item c.first
      c.rest.foldlM (link item) first) := rfl

theorem links_ok {links : List (BinaryOp × α)} (h : ∀ x ∈ links, item x.2 = .ok (leaf x.2))
    (lhs : Node) :
    links.foldlM (link item) lhs =
      .ok (links.foldl (fun lhs x => .binary x.1 lhs (leaf x.2)) lhs) := by
  induction links generalizing lhs with
  | nil => rfl
  | cons x links ih =>
    rw [List.foldlM_cons, link, h x List.mem_cons_self]
    exact ih (fun y hy => h y (List.mem_cons_of_mem _ hy)) _

theorem links_error {links : List (BinaryOp × α)} {a : α} {e : RangeError}
    (ha : a ∈ links.map Prod.snd) (h : item a = .error e) (lhs : Node) :
    ∃ e, links.foldlM (link item) lhs = .error e := by
  induction links generalizing lhs with
  | nil => cases ha
  | cons x links ih =>
    rw [List.foldlM_cons, link]
    rcases hx : item x.2 with e | rhs
    · exact ⟨e, rfl⟩
    · have hrest : a ∈ links.map Prod.snd := by
        rcases List.mem_cons.mp ha with rfl | hmem
        · rw [hx] at h
          cases h
        · exact hmem
      exact ih hrest _

theorem fold_ok {c : Chain α} (h : ∀ a ∈ c.items, item a = .ok (leaf a)) :
    c.fold item = .ok (c.tree leaf) := by
  rw [fold_eq, h c.first List.mem_cons_self]
  exact links_ok (fun x hx => h x.2 (List.mem_cons_of_mem _ (List.mem_map_of_mem hx))) _

theorem fold_error {c : Chain α} {a : α} {e : RangeError} (ha : a ∈ c.items)
    (h : item a = .error e) : ∃ e, c.fold item = .error e := by
  rw [fold_eq]
  rcases hfirst : item c.first with e | first
  · exact ⟨e, rfl⟩
  · have hrest : a ∈ c.rest.map Prod.snd := by
      rcases List.mem_cons.mp ha with rfl | hmem
      · rw [hfirst] at h
        cases h
      · exact hmem
    exact links_error hrest h first

theorem layered_fold_ok {c : Chain α} (h : ∀ a ∈ c.items, item a = .ok (leaf a)) :
    c.layered.fold (fold item) = .ok (c.layered.tree (tree leaf)) := by
  exact fold_ok fun g hg => fold_ok fun a ha => h a (mem_group_items hg ha)

theorem layered_fold_error {c : Chain α} {a : α} {e : RangeError} (ha : a ∈ c.items)
    (h : item a = .error e) : ∃ e, c.layered.fold (fold item) = .error e := by
  rw [← flatten_layered c, items_flatten] at ha
  obtain ⟨g, hg, ha⟩ := List.mem_flatMap.mp ha
  obtain ⟨e, he⟩ := fold_error ha h
  exact fold_error hg he

end Fold

end Chain

end Scriptorium

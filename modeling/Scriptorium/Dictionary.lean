/-!
# Ordered dictionaries

An ordered dictionary is a list of entries whose keys strictly increase, so
listing it is deterministic and two dictionaries that answer every lookup alike
are equal. The operations are defined on plain entry lists first: the fields
of a record value are such a list, held inside an inductive type that cannot
carry a proof about itself. The lookup laws need no hypothesis on the order.
-/

namespace Scriptorium

/-- Keys with their values. -/
abbrev Entries (κ : Type u) (α : Type v) := List (κ × α)

namespace Entries

variable {κ : Type u} {α : Type v} {β : Type w} [Ord κ]

/-- The value of the first entry with the key. -/
def get? (k : κ) : Entries κ α → Option α
  | [] => none
  | (k', v) :: rest => if compare k k' = .eq then some v else get? k rest

/-- The entries with `v` stored under `k`, at the place the order gives it. -/
def insert (k : κ) (v : α) : Entries κ α → Entries κ α
  | [] => [(k, v)]
  | (k', v') :: rest =>
    match compare k k' with
    | .lt => (k, v) :: (k', v') :: rest
    | .eq => (k, v) :: rest
    | .gt => (k', v') :: insert k v rest

/-- The keys strictly increase. -/
def Sorted (es : Entries κ α) : Prop := es.Pairwise fun a b => compare a.1 b.1 = .lt

theorem mem_insert {k : κ} {v : α} {e : κ × α} {es : Entries κ α} (h : e ∈ insert k v es) :
    e = (k, v) ∨ e ∈ es := by
  induction es with
  | nil => simpa [insert] using h
  | cons a rest ih =>
    obtain ⟨k', v'⟩ := a
    simp only [insert] at h
    split at h
    · simpa using h
    · rcases List.mem_cons.mp h with h | h
      · exact .inl h
      · exact .inr (List.mem_cons_of_mem _ h)
    · rcases List.mem_cons.mp h with h | h
      · exact .inr (h ▸ List.mem_cons_self)
      · exact (ih h).imp id (List.mem_cons_of_mem _)

theorem get?_insert_self [Std.ReflOrd κ] (k : κ) (v : α) (es : Entries κ α) :
    get? k (insert k v es) = some v := by
  induction es with
  | nil => simp [insert, get?]
  | cons a rest ih =>
    obtain ⟨k', v'⟩ := a
    simp only [insert]
    split
    · simp [get?]
    · simp [get?]
    · simp_all [get?]

theorem get?_insert_of_ne [Std.LawfulEqOrd κ] {k k' : κ} (h : k' ≠ k) (v : α)
    (es : Entries κ α) : get? k' (insert k v es) = get? k' es := by
  have hne : compare k' k ≠ .eq := fun he => h (Std.LawfulEqOrd.eq_of_compare he)
  induction es with
  | nil => simp [insert, get?, hne]
  | cons a rest ih =>
    obtain ⟨k₀, v₀⟩ := a
    simp only [insert]
    split
    · simp [get?, hne]
    · next heq =>
      obtain rfl : k = k₀ := Std.LawfulEqOrd.eq_of_compare heq
      simp [get?, hne]
    · simp [get?, ih]

theorem get?_filter [Std.LawfulEqOrd κ] (p : κ → Bool) (k : κ) (es : Entries κ α) :
    get? k (es.filter fun e => p e.1) = if p k then get? k es else none := by
  induction es with
  | nil => simp [get?]
  | cons a rest ih =>
    obtain ⟨k', v'⟩ := a
    by_cases heq : compare k k' = .eq
    · obtain rfl : k = k' := Std.LawfulEqOrd.eq_of_compare heq
      cases hp : p k with
      | true => simp [get?, hp]
      | false => simpa [get?, hp] using ih
    · cases hp : p k' with
      | true => simpa [get?, hp, heq] using ih
      | false => simpa [get?, hp, heq] using ih

theorem Sorted.insert [Std.TransOrd κ] {es : Entries κ α} (h : Sorted es) (k : κ) (v : α) :
    Sorted (Entries.insert k v es) := by
  induction es with
  | nil => simp [Entries.insert, Sorted]
  | cons a rest ih =>
    obtain ⟨k', v'⟩ := a
    obtain ⟨hhead, htail⟩ := List.pairwise_cons.mp h
    simp only [Entries.insert]
    split
    · next hlt =>
      refine List.pairwise_cons.mpr ⟨fun e he => ?_, h⟩
      rcases List.mem_cons.mp he with rfl | he
      · exact hlt
      · exact Std.TransCmp.lt_trans hlt (hhead e he)
    · next heq =>
      refine List.pairwise_cons.mpr ⟨fun e he => ?_, htail⟩
      exact Std.TransCmp.lt_of_eq_of_lt heq (hhead e he)
    · next hgt =>
      refine List.pairwise_cons.mpr ⟨fun e he => ?_, ih htail⟩
      rcases mem_insert he with rfl | he
      · exact Std.OrientedCmp.lt_of_gt hgt
      · exact hhead e he

theorem Sorted.filter {es : Entries κ α} (h : Sorted es) (p : κ × α → Bool) :
    Sorted (es.filter p) := List.Pairwise.filter p h

theorem Sorted.mapValues {es : Entries κ α} (h : Sorted es) (f : κ → α → β) :
    Sorted (es.map fun e => (e.1, f e.1 e.2)) := by
  simpa [Sorted, List.pairwise_map] using h

/-- Entries listed in any order, the later of two with one key prevailing. -/
def ofList (es : List (κ × α)) : Entries κ α := es.foldl (fun acc e => insert e.1 e.2 acc) []

/-- A key behind all others is inserted at the end. -/
theorem insert_last [Std.TransOrd κ] {k : κ} {es : Entries κ α}
    (h : ∀ e ∈ es, compare e.1 k = .lt) (v : α) : insert k v es = es ++ [(k, v)] := by
  induction es with
  | nil => rfl
  | cons e es ih =>
    have hgt : compare k e.1 = .gt := Std.OrientedCmp.gt_of_lt (h e List.mem_cons_self)
    have hrest := ih fun e he => h e (List.mem_cons_of_mem _ he)
    simp [insert, hgt, hrest]

/-- Entries that are listed in order stay as they are. -/
theorem ofList_of_sorted [Std.TransOrd κ] {es : Entries κ α} (h : Sorted es) : ofList es = es := by
  suffices hfold : ∀ acc : Entries κ α, Sorted (acc ++ es) →
      es.foldl (fun acc e => insert e.1 e.2 acc) acc = acc ++ es from hfold [] h
  clear h
  induction es with
  | nil => simp
  | cons e es ih =>
    intro acc hsorted
    have hlast : ∀ x ∈ acc, compare x.1 e.1 = .lt := fun x hx =>
      (List.pairwise_append.mp hsorted).2.2 x hx e List.mem_cons_self
    rw [List.foldl_cons, insert_last hlast, ih _ (by simpa using hsorted), List.append_assoc]
    rfl

end Entries

/-- Entries whose keys strictly increase. -/
structure Dictionary (κ : Type u) (α : Type v) [Ord κ] where
  entries : List (κ × α)
  sorted : Entries.Sorted entries

namespace Dictionary

variable {κ : Type u} {α : Type v} {β : Type w} [Ord κ]

/-- The dictionary without entries. -/
def empty : Dictionary κ α := ⟨[], List.Pairwise.nil⟩

instance : EmptyCollection (Dictionary κ α) := ⟨empty⟩

instance : Inhabited (Dictionary κ α) := ⟨empty⟩

/-- The value stored under `k`. -/
def get? (d : Dictionary κ α) (k : κ) : Option α := Entries.get? k d.entries

/-- Something is stored under `k`. -/
def contains (d : Dictionary κ α) (k : κ) : Bool := (d.get? k).isSome

/-- The number of entries. -/
def size (d : Dictionary κ α) : Nat := d.entries.length

/-- The keys in increasing order. -/
def keys (d : Dictionary κ α) : List κ := d.entries.map (·.1)

/-- The dictionary with `v` stored under `k`, in place of what was there. -/
def insert [Std.TransOrd κ] (d : Dictionary κ α) (k : κ) (v : α) : Dictionary κ α :=
  ⟨Entries.insert k v d.entries, d.sorted.insert k v⟩

/-- The dictionary with `v` stored under `k` unless something is there already. -/
def insertNew [Std.TransOrd κ] (d : Dictionary κ α) (k : κ) (v : α) : Dictionary κ α :=
  if d.contains k then d else d.insert k v

/-- The entries whose keys pass the test. -/
def filterKeys (d : Dictionary κ α) (p : κ → Bool) : Dictionary κ α :=
  ⟨d.entries.filter fun e => p e.1, d.sorted.filter _⟩

/-- Every value replaced by its image. -/
def mapValues (d : Dictionary κ α) (f : κ → α → β) : Dictionary κ β :=
  ⟨d.entries.map fun e => (e.1, f e.1 e.2), d.sorted.mapValues f⟩

/-- Entries listed in any order, the later of two with one key prevailing. -/
def ofList [Std.TransOrd κ] (es : List (κ × α)) : Dictionary κ α :=
  es.foldl (fun d e => d.insert e.1 e.2) ∅

@[ext] theorem ext {d e : Dictionary κ α} (h : d.entries = e.entries) : d = e := by
  cases d; cases e; cases h; rfl

instance [DecidableEq κ] [DecidableEq α] : DecidableEq (Dictionary κ α) := fun d e =>
  decidable_of_iff (d.entries = e.entries) ⟨ext, fun h => h ▸ rfl⟩

@[simp] theorem get?_empty (k : κ) : (∅ : Dictionary κ α).get? k = none := rfl

@[simp] theorem get?_insert_self [Std.TransOrd κ] (d : Dictionary κ α) (k : κ) (v : α) :
    (d.insert k v).get? k = some v := Entries.get?_insert_self k v d.entries

theorem get?_insert_of_ne [Std.TransOrd κ] [Std.LawfulEqOrd κ] (d : Dictionary κ α) {k k' : κ}
    (h : k' ≠ k) (v : α) : (d.insert k v).get? k' = d.get? k' :=
  Entries.get?_insert_of_ne h v d.entries

theorem get?_filterKeys [Std.LawfulEqOrd κ] (d : Dictionary κ α) (p : κ → Bool) (k : κ) :
    (d.filterKeys p).get? k = if p k then d.get? k else none := Entries.get?_filter p k d.entries

/-- The first value stored under a key stays. -/
theorem insertNew_of_contains [Std.TransOrd κ] (d : Dictionary κ α) {k : κ} (v : α)
    (h : d.contains k = true) : d.insertNew k v = d := by
  simp [insertNew, h]

@[simp] theorem get?_insertNew_self [Std.TransOrd κ] (d : Dictionary κ α) (k : κ) (v : α) :
    (d.insertNew k v).get? k = some ((d.get? k).getD v) := by
  cases h : d.get? k with
  | none => simp [insertNew, contains, h]
  | some w =>
    have hcontains : d.contains k = true := by simp [contains, h]
    rw [insertNew_of_contains d v hcontains, h, Option.getD_some]

theorem get?_insertNew_of_ne [Std.TransOrd κ] [Std.LawfulEqOrd κ] (d : Dictionary κ α) {k k' : κ}
    (h : k' ≠ k) (v : α) : (d.insertNew k v).get? k' = d.get? k' := by
  unfold insertNew
  split
  · rfl
  · exact get?_insert_of_ne d h v

end Dictionary

end Scriptorium

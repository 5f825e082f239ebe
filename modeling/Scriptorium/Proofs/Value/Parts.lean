import Scriptorium.Proofs.Unit.Contents
import Scriptorium.Target.Evaluate

/-!
# Parts of a value

The items of an array and the fields of a record are parts of it, and so are
their parts. A step leads from a value to one of its parts.
-/

namespace Scriptorium

theorem Entries.mem_of_get? {α : Type} {k : String} {v : α} {es : List (String × α)}
    (h : Entries.get? k es = some v) : (k, v) ∈ es := by
  induction es with
  | nil => cases h
  | cons e es ih =>
    obtain ⟨k', v'⟩ := e
    rw [Entries.get?] at h
    split at h
    · next heq =>
      cases h
      rw [Std.LawfulEqOrd.eq_of_compare heq]
      exact List.mem_cons_self
    · exact List.mem_cons_of_mem _ (ih h)

namespace Value

variable {part v : Value}

theorem self_mem_parts (v : Value) : v ∈ v.parts := by
  cases v <;> exact List.mem_cons_self

theorem mem_partsItems {items : List Value} :
    part ∈ partsItems items ↔ ∃ v ∈ items, part ∈ v.parts := by
  induction items with
  | nil => simp [partsItems]
  | cons v items ih => simp [partsItems, ih]

theorem mem_partsFields {fields : List (String × Value)} :
    part ∈ partsFields fields ↔ ∃ e ∈ fields, part ∈ e.2.parts := by
  induction fields with
  | nil => simp [partsFields]
  | cons e fields ih => simp [partsFields, ih]

theorem mem_parts_array {items : List Value} :
    part ∈ (Value.array items).parts ↔ part = .array items ∨ ∃ v ∈ items, part ∈ v.parts := by
  rw [parts, List.mem_cons, mem_partsItems]

theorem mem_parts_record {type : QualifiedName} {fields : List (String × Value)} :
    part ∈ (Value.record type fields).parts ↔
      part = .record type fields ∨ ∃ e ∈ fields, part ∈ e.2.parts := by
  rw [parts, List.mem_cons, mem_partsFields]

mutual

/-- The parts of a part are parts. -/
theorem parts_subset (v : Value) {part : Value} (h : part ∈ v.parts) : part.parts ⊆ v.parts := by
  match v with
  | .array items =>
    rcases List.mem_cons.mp h with rfl | h
    · exact List.Subset.refl _
    · exact List.subset_cons_of_subset _ (partsItems_subset items h)
  | .record type fields =>
    rcases List.mem_cons.mp h with rfl | h
    · exact List.Subset.refl _
    · exact List.subset_cons_of_subset _ (partsFields_subset fields h)
  | .null | .integer n | .decimal d | .boolean b | .string s =>
    obtain rfl := List.mem_singleton.mp h
    exact List.Subset.refl _

theorem partsItems_subset (vs : List Value) {part : Value} (h : part ∈ partsItems vs) :
    part.parts ⊆ partsItems vs := by
  match vs with
  | v :: vs =>
    rcases List.mem_append.mp h with h | h
    · exact List.subset_append_of_subset_left _ (parts_subset v h)
    · exact List.subset_append_of_subset_right _ (partsItems_subset vs h)

theorem partsFields_subset (fields : List (String × Value)) {part : Value}
    (h : part ∈ partsFields fields) : part.parts ⊆ partsFields fields := by
  match fields with
  | (name, v) :: fields =>
    rcases List.mem_append.mp h with h | h
    · exact List.subset_append_of_subset_left _ (parts_subset v h)
    · exact List.subset_append_of_subset_right _ (partsFields_subset fields h)

end

end Value

namespace Evaluate

variable {path : String} {v w : Value}

/-- A step to a field finds it in a record. -/
theorem step_field_eq_ok {name : String} (h : step path v (.field name) = .ok w) :
    ∃ type fields, v = .record type fields ∧ Entries.get? name fields = some w := by
  cases v with
  | record type fields =>
    unfold step at h
    dsimp only at h
    split at h
    · next hget =>
      cases h
      exact ⟨type, fields, rfl, hget⟩
    · cases h
  | _ => cases h

/-- A step to an element finds it in an array. -/
theorem step_index_eq_ok {n : Nat} (h : step path v (.index n) = .ok w) :
    ∃ items, v = .array items ∧ items[n]? = some w := by
  cases v with
  | array items =>
    unfold step at h
    dsimp only at h
    split at h
    · next hitem =>
      cases h
      exact ⟨items, rfl, hitem⟩
    · cases h
  | _ => cases h

/-- A step leads to a part of the value. -/
theorem step_mem_parts {s : Step} (h : step path v s = .ok w) : w ∈ v.parts := by
  cases s with
  | field name =>
    obtain ⟨type, fields, rfl, hget⟩ := step_field_eq_ok h
    exact Value.mem_parts_record.mpr (.inr ⟨_, Entries.mem_of_get? hget, w.self_mem_parts⟩)
  | index n =>
    obtain ⟨items, rfl, hitem⟩ := step_index_eq_ok h
    exact Value.mem_parts_array.mpr (.inr ⟨w, List.mem_of_getElem? hitem, w.self_mem_parts⟩)

end Evaluate

end Scriptorium

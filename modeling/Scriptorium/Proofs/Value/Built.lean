import Scriptorium.Proofs.Value.Parts
import Scriptorium.Proofs.Value.Sound

/-!
# Records in values

A value is built from the registered types when every record in it, however deep,
has exactly the fields of its type, each with a value that belongs to the type of
the field. Values without records are, a fresh record is, and a record stays so
when a field is given such a value.
-/

namespace Scriptorium

namespace Entries

variable {α : Type} {es : List (String × α)}

theorem sorted_ofList (es : List (String × α)) : Sorted (ofList es) := by
  have hfold (es acc : List (String × α)) (h : Sorted acc) :
      Sorted (es.foldl (fun acc e => insert e.1 e.2 acc) acc) := by
    induction es generalizing acc with
    | nil => exact h
    | cons e es ih => exact ih _ (h.insert e.1 e.2)
  exact hfold es [] .nil

theorem mem_ofList {e : String × α} (h : e ∈ ofList es) : e ∈ es := by
  have hfold (es acc : List (String × α))
      (h : e ∈ es.foldl (fun acc e => insert e.1 e.2 acc) acc) : e ∈ acc ∨ e ∈ es := by
    induction es generalizing acc with
    | nil => exact .inl h
    | cons x es ih =>
      rcases ih _ h with h | h
      · rcases mem_insert h with rfl | h
        · exact .inr List.mem_cons_self
        · exact .inl h
      · exact .inr (List.mem_cons_of_mem _ h)
  rcases hfold es [] h with h | h
  · cases h
  · exact h

end Entries

namespace RecordType

variable {t : RecordType} {fields : List (String × Value)}

theorem exists_field? {d : FieldDefinition} (h : d ∈ t.fields) : ∃ d', t.field? d.name = some d' :=
  Option.isSome_iff_exists.mp (List.find?_isSome.mpr ⟨d, h, by simp⟩)

/-- The record has the fields of the type, each of them once and with a value that belongs to the
type of the field. -/
structure Describes (t : RecordType) (fields : List (String × Value)) : Prop where
  sorted : Entries.Sorted fields
  complete : ∀ d ∈ t.fields, ∃ v, Entries.get? d.name fields = some v
  typed : ∀ name v, (name, v) ∈ fields → ∃ d, t.field? name = some d ∧ v.Fits d.type

theorem describes_freshFields (t : RecordType) : t.Describes t.freshFields where
  sorted := Entries.sorted_ofList _
  complete := fun d hd => ⟨.null, Entries.get?_ofList_map ⟨d, hd, rfl⟩⟩
  typed := by
    intro name v hmem
    obtain ⟨d, hd, heq⟩ := List.mem_map.mp (Entries.mem_ofList hmem)
    cases heq
    obtain ⟨d', hd'⟩ := exists_field? hd
    exact ⟨d', hd', Value.null_fits _⟩

theorem Describes.insert (h : t.Describes fields) {field : String} {d : FieldDefinition} {v : Value}
    (hd : t.field? field = some d) (hv : v.Fits d.type) :
    t.Describes (Entries.insert field v fields) where
  sorted := h.sorted.insert field v
  complete := by
    intro d' hd'
    by_cases hname : d'.name = field
    · rw [hname]
      exact ⟨v, Entries.get?_insert_self _ _ _⟩
    · rw [Entries.get?_insert_of_ne hname]
      exact h.complete d' hd'
  typed := by
    intro name w hmem
    rcases Entries.mem_insert hmem with heq | hmem
    · cases heq
      exact ⟨d, hd, hv⟩
    · exact h.typed name w hmem

end RecordType

namespace Value

variable {types : Registry} {v w : Value}

/-- No record is in the value. -/
def RecordFree (v : Value) : Prop := ∀ name fields, .record name fields ∉ v.parts

/-- Every record in the value has the fields of its registered type, with values of their types. -/
def Built (types : Registry) (v : Value) : Prop :=
  ∀ name fields, .record name fields ∈ v.parts →
    ∃ t, types name = .ok (some t) ∧ t.Describes fields

theorem RecordFree.built (h : v.RecordFree) (types : Registry) : v.Built types :=
  fun name fields hmem => absurd hmem (h name fields)

mutual

/-- A plain value is free of records. -/
theorem recordFree_of_isPlain (v : Value) (h : v.isPlain = true) : v.RecordFree := by
  intro name fields hmem
  match v with
  | .array items =>
    rcases List.mem_cons.mp hmem with heq | hmem
    · cases heq
    · exact partsItems_recordFree items h name fields hmem
  | .record _ _ => cases h
  | .null | .integer n | .decimal d | .boolean b | .string s =>
    cases List.mem_singleton.mp hmem

theorem partsItems_recordFree (vs : List Value) (h : arePlain vs = true) (name : QualifiedName)
    (fields : List (String × Value)) : .record name fields ∉ partsItems vs := by
  intro hmem
  match vs with
  | v :: vs =>
    rw [arePlain, Bool.and_eq_true] at h
    rcases List.mem_append.mp hmem with hmem | hmem
    · exact recordFree_of_isPlain v h.1 name fields hmem
    · exact partsItems_recordFree vs h.2 name fields hmem

end

theorem built_null (types : Registry) : Value.null.Built types :=
  (recordFree_of_isPlain .null rfl).built types

theorem built_record {name : QualifiedName} {fields : List (String × Value)} :
    (Value.record name fields).Built types ↔
      (∃ t, types name = .ok (some t) ∧ t.Describes fields) ∧ ∀ e ∈ fields, e.2.Built types := by
  constructor
  · intro h
    refine ⟨h name fields (self_mem_parts _), fun e he inner entries hmem => ?_⟩
    exact h inner entries (mem_parts_record.mpr (.inr ⟨e, he, hmem⟩))
  · rintro ⟨hdescribes, hfields⟩ inner entries hmem
    rcases mem_parts_record.mp hmem with heq | ⟨e, he, hmem⟩
    · cases heq
      exact hdescribes
    · exact hfields e he inner entries hmem

/-- A fresh record is built from the types. -/
theorem built_freshFields {name : QualifiedName} {t : RecordType} (ht : types name = .ok (some t)) :
    (Value.record name t.freshFields).Built types := by
  refine built_record.mpr ⟨⟨t, ht, t.describes_freshFields⟩, fun e he => ?_⟩
  obtain ⟨d, -, rfl⟩ := List.mem_map.mp (Entries.mem_ofList he)
  exact built_null types

/-- A field of a record takes a value that belongs to its type. -/
theorem Built.insert {name : QualifiedName} {t : RecordType} {fields : List (String × Value)}
    (h : (Value.record name fields).Built types) (ht : types name = .ok (some t)) {field : String}
    {d : FieldDefinition} (hd : t.field? field = some d) (hfits : v.Fits d.type)
    (hv : v.Built types) : (Value.record name (Entries.insert field v fields)).Built types := by
  obtain ⟨⟨t', ht', hdescribes⟩, hfields⟩ := built_record.mp h
  rw [ht] at ht'
  cases ht'
  refine built_record.mpr ⟨⟨t, ht, hdescribes.insert hd hfits⟩, fun e he => ?_⟩
  rcases Entries.mem_insert he with rfl | he
  · exact hv
  · exact hfields e he

/-- Coercion adds no records. -/
theorem RecordFree.coerce? {type : SemanticType} (h : v.RecordFree)
    (hw : type.coerce? v = some w) : w.RecordFree := by
  obtain ⟨-, rfl | hplain⟩ := SemanticType.coerce?_eq_some hw
  · exact h
  · exact recordFree_of_isPlain w hplain

end Value

end Scriptorium

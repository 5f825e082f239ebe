import Scriptorium.Proofs.Expression.Tree
import Scriptorium.Proofs.Value.Sound
import Scriptorium.Proofs.Variable.Declared

/-!
# Sound tables

In a sound table every variable holds a sound value of its type. Operations on
variables keep a table sound, and a value that is assigned along fields is
refused for one reason alone: it does not belong to the type of the slot to
which the fields lead.
-/

namespace Scriptorium

/-- Every record type is registered under its own name. -/
def Registry.Named (types : Registry) : Prop := ∀ name t, types name = .ok (some t) → t.name = name

/-- If this is a record type, it is registered under its own name or not at all. -/
def Registry.Names (types : Registry) (type : SemanticType) : Prop :=
  ∀ name t, type = .record name → types name = .ok (some t) → t.name = name

theorem Registry.Named.names {types : Registry} (h : types.Named) (type : SemanticType) :
    types.Names type := fun name t _ ht => h name t ht

theorem Registry.named_ofTypes (ts : List RecordType) : (ofTypes ts).Named := by
  intro name t ht
  have hfound : ts.reverse.find? (·.name = name) = some t := Except.ok.inj ht
  simpa using List.find?_some hfound

namespace Value

variable {types : Registry} {v : Value}

theorem fits_record {name : QualifiedName} (h : v.Fits (.record name)) :
    v = .null ∨ ∃ fields, v = .record name fields := by
  cases v with
  | null => exact .inl rfl
  | record type fields =>
    rw [Fits, SemanticType.coerce?] at h
    split at h
    · next hname =>
      subst hname
      exact .inr ⟨fields, rfl⟩
    · cases h
  | _ => cases h

end Value

namespace RecordType

variable {types : Registry} {t : RecordType}

/-- A fresh record is sound. -/
theorem sound_freshFields {name : QualifiedName} (ht : types name = .ok (some t)) :
    (Value.record name t.freshFields).Sound types := by
  apply Value.Sound.of_fields ht
  intro field d hd
  have hmem : d ∈ t.fields := List.mem_of_find?_eq_some hd
  have hget := Entries.get?_ofList_map (v := Value.null) ⟨d, hmem, name_of_field? hd⟩
  exact ⟨.null, hget, Value.null_fits _, .null⟩

end RecordType

namespace VariableTable

variable {types : Registry}

/-- Every variable holds a sound value of its type, and the values that are queued are sound. -/
structure Sound (types : Registry) (t : VariableTable) : Prop where
  inputs : ∀ name v, t.inputs.get? name = some v → v.value.Fits v.type ∧ v.value.Sound types
  locals : ∀ name v, t.locals.get? name = some v → v.value.Fits v.type ∧ v.value.Sound types
  pending : ∀ v ∈ t.pending, v.Sound types

theorem Sound.get? {t : VariableTable} (h : t.Sound types) {name : String} {v : Variable}
    (hv : t.get? name = some v) : v.value.Fits v.type ∧ v.value.Sound types := by
  unfold VariableTable.get? at hv
  cases hlocal : t.locals.get? name with
  | some w =>
    rw [hlocal] at hv
    cases hv
    exact h.locals name v hlocal
  | none =>
    rw [hlocal, Option.none_or] at hv
    exact h.inputs name v hv

theorem Sound.setLocal {t : VariableTable} (h : t.Sound types) (name : String) {v : Variable}
    (hv : v.value.Fits v.type ∧ v.value.Sound types) : (t.setLocal name v).Sound types where
  inputs := h.inputs
  locals := by
    intro other w hw
    rw [locals_setLocal] at hw
    split at hw
    · cases hw
      exact hv
    · exact h.locals other w hw
  pending := h.pending

theorem Sound.addInput {t : VariableTable} (h : t.Sound types) (name : String) {v : Variable}
    (hv : v.value.Fits v.type ∧ v.value.Sound types) : (t.addInput name v).Sound types where
  inputs := by
    intro other w hw
    rw [inputs_addInput] at hw
    split at hw
    · cases hw
      exact hv
    · exact h.inputs other w hw
  locals := h.locals
  pending := h.pending

theorem Sound.empty_inputs {inputs : List Value} (h : ∀ v ∈ inputs, v.Sound types) :
    (withInputs inputs).Sound types where
  inputs := nofun
  locals := nofun
  pending := h

section Fields

variable {name : QualifiedName} {t : RecordType} {field : String}
  {d : FieldDefinition} {slot value : Value}

/-- The record in a slot of its type is opened, or a fresh one in its place. -/
theorem openField_run (path : String) (hnamed : types.Named) (ht : types name = .ok (some t))
    (hd : t.field? field = some d) (hfits : slot.Fits (.record name)) (hsound : slot.Sound types) :
    ∃ fields, (openField path slot (.record name) field).run types = .ok ⟨name, fields, d⟩ ∧
      (Value.record name fields).Sound types := by
  simp only [openField, Inquiry.run_bind, Inquiry.run_lookup, ht]
  rcases Value.fits_record hfits with rfl | ⟨fields, rfl⟩
  · refine ⟨t.freshFields, ?_, RecordType.sound_freshFields ht⟩
    simp only [Value.isNull, if_true, RecordType.instantiate, hd, Inquiry.run_pure, hnamed name t ht]
  · refine ⟨fields, ?_, hsound⟩
    simp only [Value.isNull, Bool.false_eq_true, if_false, hd, Inquiry.run_pure]

theorem entry_sound {fields : List (String × Value)} (ht : types name = .ok (some t))
    (hd : t.field? field = some d) (hsound : (Value.record name fields).Sound types) :
    (OpenRecord.mk name fields d).entry.Fits d.type ∧
      (OpenRecord.mk name fields d).entry.Sound types := by
  obtain ⟨v, hget, hfits, hv⟩ := hsound.field ht hd
  have hentry : (OpenRecord.mk name fields d).entry = v := by
    rw [OpenRecord.entry, RecordType.name_of_field? hd, hget]
    rfl
  rw [hentry]
  exact ⟨hfits, hv⟩

/-- A record in which a field has been updated with a value of the field's type is sound. -/
theorem close_sound {fields : List (String × Value)} (ht : types name = .ok (some t))
    (hd : t.field? field = some d) (hsound : (Value.record name fields).Sound types)
    (hfits : value.Fits d.type) (hvalue : value.Sound types) :
    ((OpenRecord.mk name fields d).close value).Fits (.record name) ∧
      ((OpenRecord.mk name fields d).close value).Sound types := by
  constructor
  · rw [OpenRecord.close, Value.Fits, SemanticType.coerce?, if_pos rfl]
  · rw [OpenRecord.close, RecordType.name_of_field? hd]
    apply Value.Sound.of_fields ht
    intro other e he
    by_cases hother : other = field
    · subst hother
      rw [hd] at he
      cases he
      exact ⟨value, Entries.get?_insert_self _ _ _, hfits, hvalue⟩
    · rw [Entries.get?_insert_of_ne hother]
      exact hsound.field ht he

/-- A value is stored along fields, or does not belong to the type of the slot at their end. -/
theorem assignField_sound (hnamed : types.Named) (path : String) (hvalue : value.Sound types)
    {slotType type : SemanticType} {fields : List String}
    (htype : Expression.slotType? types slotType (field :: fields) = some type)
    (hfits : slot.Fits slotType) (hsound : slot.Sound types) :
    ∃ outcome slot', (assignField path value slot slotType field fields).run types =
        (outcome, slot') ∧
      (outcome = .ok () ∧ slot'.Fits slotType ∧ slot'.Sound types ∨
        ∃ cause, outcome = .error (.invalidValue path cause) ∧ type.coerce value = .error cause) := by
  induction fields generalizing slot slotType field with
  | nil =>
    obtain ⟨name, t, d, rfl, ht, hd, htype⟩ := Expression.slotType?_cons.mp htype
    cases htype
    obtain ⟨entries, hopen, hentries⟩ := openField_run path hnamed ht hd hfits hsound
    simp only [assignField, Inquiry.run_bind, hopen]
    cases hcoerce : d.type.coerce value with
    | error cause => exact ⟨_, _, rfl, .inr ⟨cause, rfl, rfl⟩⟩
    | ok w =>
      have hcoerced := SemanticType.coerce_sound hvalue hcoerce
      have hclosed := close_sound ht hd hentries hcoerced.1 hcoerced.2
      exact ⟨_, _, rfl, .inl ⟨rfl, hclosed⟩⟩
  | cons next rest ih =>
    obtain ⟨name, t, d, rfl, ht, hd, htype⟩ := Expression.slotType?_cons.mp htype
    obtain ⟨entries, hopen, hentries⟩ := openField_run path hnamed ht hd hfits hsound
    have hentry := entry_sound ht hd hentries
    obtain ⟨outcome, entry, hrun, hresult⟩ := ih htype hentry.1 hentry.2
    simp only [assignField, Inquiry.run_bind, hopen, hrun, Inquiry.run_pure]
    refine ⟨_, _, rfl, ?_⟩
    rcases hresult with ⟨hok, hentry⟩ | hrefused
    · exact .inl ⟨hok, close_sound ht hd hentries hentry.1 hentry.2⟩
    · exact .inr hrefused

end Fields

/-- An input takes the next value that is queued, if its type does not refuse it. -/
theorem bindInput_cases {t : VariableTable} (hsound : t.Sound types) {name : String}
    (hfresh : t.namespace? name = none) (type : SemanticType) :
    (∃ v pending, v.Fits type ∧ v.Sound types ∧ (∀ w ∈ pending, w.Sound types) ∧
        t.bindInput name type = (.ok (), { t.addInput name ⟨type, v⟩ with pending })) ∨
      (t.pending = [] ∧ t.bindInput name type = (.error (.missingInput name), t)) ∨
      ∃ v rest cause, t.pending = v :: rest ∧ type.coerce v = .error cause ∧
        (t.bindInput name type).1 = .error (.invalidValue name cause) := by
  unfold bindInput
  cases hpending : t.pending with
  | nil =>
    simp only [hfresh]
    exact .inr (.inl ⟨trivial, trivial⟩)
  | cons raw pending =>
    have hraw : raw.Sound types := hsound.pending raw (by rw [hpending]; exact List.mem_cons_self)
    have hrest : ∀ w ∈ pending, w.Sound types := fun w hw =>
      hsound.pending w (by rw [hpending]; exact List.mem_cons_of_mem _ hw)
    cases hcoerce : type.coerce raw with
    | error cause =>
      right
      right
      refine ⟨raw, pending, cause, rfl, hcoerce, ?_⟩
      simp only [hfresh, hcoerce]
    | ok v =>
      have hv := SemanticType.coerce_sound hraw hcoerce
      left
      refine ⟨v, pending, hv.1, hv.2, hrest, ?_⟩
      simp only [hfresh, hcoerce]
      rfl

/-- A local takes a value that belongs to its type after coercion. -/
theorem assign_cases {t : VariableTable} {name : String} {v : Variable}
    (hget : t.locals.get? name = some v) {value : Value} (hvalue : value.Sound types) :
    (∃ w, v.type.coerce value = .ok w ∧ w.Fits v.type ∧ w.Sound types ∧
        t.assign name value = (.ok (), t.setLocal name { v with value := w })) ∨
      ∃ cause, v.type.coerce value = .error cause ∧
        (t.assign name value).1 = .error (.invalidValue name cause) := by
  unfold assign
  cases hcoerce : v.type.coerce value with
  | error cause =>
    right
    refine ⟨cause, rfl, ?_⟩
    simp only [hget, hcoerce]
  | ok w =>
    have hw := SemanticType.coerce_sound hvalue hcoerce
    left
    refine ⟨w, rfl, hw.1, hw.2, ?_⟩
    simp only [hget, hcoerce]
    rfl

theorem assignPath_missing {t : VariableTable} {target : String}
    (hget : t.locals.get? (Text.pieces '.' target).1 = none) (value : Value) (types : Registry) :
    (t.assignPath target value).run types =
      (.error (.notDeclared (Text.pieces '.' target).1), t) := by
  unfold assignPath
  rcases hpieces : Text.pieces '.' target with ⟨head, fields⟩
  rw [hpieces] at hget
  cases fields with
  | nil => simp only [Inquiry.run_pure, assign, hget]
  | cons field rest => simp only [Inquiry.run_pure, hget]

/-- A local or a field of one takes a value that belongs to its type after coercion. -/
theorem assignPath_cases {t : VariableTable} (hnamed : types.Named) (hsound : t.Sound types)
    {target : String} {v : Variable} (hget : t.locals.get? (Text.pieces '.' target).1 = some v)
    {type : SemanticType}
    (htype : Expression.slotType? types v.type (Text.pieces '.' target).2 = some type)
    {value : Value} (hvalue : value.Sound types) :
    (∃ w, w.Fits v.type ∧ w.Sound types ∧ (t.assignPath target value).run types =
        (.ok (), t.setLocal (Text.pieces '.' target).1 { v with value := w })) ∨
      ∃ path cause, type.coerce value = .error cause ∧
        ((t.assignPath target value).run types).1 = .error (.invalidValue path cause) := by
  unfold assignPath
  rcases hpieces : Text.pieces '.' target with ⟨head, fields⟩
  rw [hpieces] at hget htype
  cases fields with
  | nil =>
    have hsame : v.type = type := by
      cases htype' : v.type <;> rw [htype'] at htype <;> cases htype <;> rfl
    subst hsame
    rcases assign_cases hget hvalue with ⟨w, -, hassigned⟩ | ⟨cause, hcoerce, hassign⟩
    · exact .inl ⟨w, hassigned⟩
    · exact .inr ⟨head, cause, hcoerce, hassign⟩
  | cons field rest =>
    obtain ⟨hfits, hv⟩ := hsound.locals head v hget
    obtain ⟨outcome, slot, hrun, hresult⟩ := assignField_sound hnamed target hvalue htype hfits hv
    simp only [hget, Inquiry.run_bind, hrun, Inquiry.run_pure]
    rcases hresult with ⟨rfl, hslot⟩ | ⟨cause, rfl, hcoerce⟩
    · exact .inl ⟨slot, hslot.1, hslot.2, rfl⟩
    · exact .inr ⟨target, cause, hcoerce, rfl⟩

end VariableTable

end Scriptorium

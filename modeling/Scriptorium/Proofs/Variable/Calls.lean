import Scriptorium.Proofs.Value.Built
import Scriptorium.Proofs.Variable.Sound

/-!
# What calls on a table keep

A table is changed by five operations, and each of them may fail half-way. Whatever
they are called with and however they end, a name stays in the namespace that it is
declared in, with its type; an input keeps its value; and every variable holds a
value of its type, as long as types are registered under their own names. When
no record is handed in from outside either, every record in a variable has
exactly the fields of its type, also where a failing assignment has created it.
-/

namespace Scriptorium

/-- A call of an operation that may change a table. -/
inductive TableCall where
  | declareInput (name : String) (type : SemanticType)
  | bindInput (name : String) (type : SemanticType)
  | declareLocal (name : String) (type : SemanticType)
  | assign (name : String) (value : Value)
  | assignPath (path : String) (value : Value)

namespace TableCall

/-- The outcome of the call and the table that it leaves. -/
def perform (types : Registry) (t : VariableTable) : TableCall → TableOutcome
  | declareInput name type => t.declareInput name type
  | bindInput name type => t.bindInput name type
  | declareLocal name type => t.declareLocal name type
  | assign name value => t.assign name value
  | assignPath path value => (t.assignPath path value).run types

/-- The value that the call assigns. -/
def assigned? : TableCall → Option Value
  | assign _ value | assignPath _ value => some value
  | _ => none

end TableCall

namespace VariableTable

variable {types : Registry}

/-- The table after several calls, whether they fail or not. -/
def after (types : Registry) (t : VariableTable) (calls : List TableCall) : VariableTable :=
  calls.foldl (fun t call => (call.perform types t).2) t

/-! ## Slots of records -/

/-- What is left in a slot when the record in it is opened: a slot that is null may get a fresh
record. -/
inductive Opened (types : Registry) (slotType : SemanticType) (slot : Value) : Value → Prop
  | same : Opened types slotType slot slot
  | fresh {name : QualifiedName} {t : RecordType} (htype : slotType = .record name)
    (ht : types name = .ok (some t)) : Opened types slotType slot t.instantiate

section Slots

variable {slotType : SemanticType} {slot left value : Value} {path field : String}

theorem Opened.fits (hnames : types.Names slotType) (h : Opened types slotType slot left)
    (hfits : slot.Fits slotType) : left.Fits slotType := by
  cases h with
  | same => exact hfits
  | @fresh name t htype ht =>
    rw [htype, RecordType.instantiate, hnames name t htype ht, Value.Fits, SemanticType.coerce?,
      if_pos rfl]

theorem Opened.built (hnamed : types.Named) (h : Opened types slotType slot left)
    (hbuilt : slot.Built types) : left.Built types := by
  cases h with
  | same => exact hbuilt
  | @fresh name t htype ht =>
    rw [RecordType.instantiate, hnamed name t ht]
    exact Value.built_freshFields ht

/-- Either the record in the slot is opened at a field of its type, or the slot is left. -/
theorem openField_cases (types : Registry) (path : String) (slot : Value) (slotType : SemanticType)
    (field : String) :
    (∃ cause left, (openField path slot slotType field).run types = .error (cause, left) ∧
        Opened types slotType slot left) ∨
      ∃ name t r, (openField path slot slotType field).run types = .ok r ∧
        slotType = .record name ∧ types name = .ok (some t) ∧
        t.field? field = some r.definition ∧
        Opened types slotType slot (.record r.type r.fields) := by
  cases slotType with
  | primitive kind => exact .inl ⟨_, _, rfl, .same⟩
  | array => exact .inl ⟨_, _, rfl, .same⟩
  | record name =>
    simp only [openField, Inquiry.run_bind, Inquiry.run_lookup]
    rcases ht : types name with cause | _ | t
    · exact .inl ⟨_, _, rfl, .same⟩
    · exact .inl ⟨_, _, rfl, .same⟩
    · have hopened : Opened types (.record name) slot
          (if slot.isNull then t.instantiate else slot) := by
        split
        · exact .fresh rfl ht
        · exact .same
      dsimp only
      split
      · next type fields hslot =>
        rw [hslot] at hopened
        cases hd : t.field? field with
        | none => exact .inl ⟨_, _, rfl, hopened⟩
        | some d => exact .inr ⟨name, t, _, rfl, rfl, ht, hd, hopened⟩
      · exact .inl ⟨_, _, rfl, hopened⟩

theorem close_fits {r : OpenRecord} (h : (Value.record r.type r.fields).Fits slotType) (v : Value) :
    (r.close v).Fits slotType := by
  cases slotType with
  | primitive kind => cases h
  | array => cases h
  | record name =>
    rcases Value.fits_record h with hnull | ⟨fields, hrecord⟩
    · cases hnull
    · cases hrecord
      rw [OpenRecord.close, Value.Fits, SemanticType.coerce?, if_pos rfl]

/-- A slot that is built from the types is opened at a record that is. -/
theorem openField_built (hnamed : types.Named) (path : String) (hfits : slot.Fits slotType)
    (hbuilt : slot.Built types) (field : String) :
    (∃ cause left, (openField path slot slotType field).run types = .error (cause, left) ∧
        left.Built types) ∨
      ∃ t r, (openField path slot slotType field).run types = .ok r ∧
        types r.type = .ok (some t) ∧ t.field? field = some r.definition ∧
        (Value.record r.type r.fields).Built types := by
  rcases openField_cases types path slot slotType field with
    ⟨cause, left, hrun, hleft⟩ | ⟨name, t, r, hrun, rfl, ht, hd, hopened⟩
  · exact .inl ⟨cause, left, hrun, hleft.built hnamed hbuilt⟩
  · rcases Value.fits_record (hopened.fits (hnamed.names _) hfits) with hnull | ⟨fields, hrecord⟩
    · cases hnull
    · have hbuilt' := hopened.built hnamed hbuilt
      cases hrecord
      exact .inr ⟨t, r, hrun, ht, hd, hbuilt'⟩

section Entry

variable {r : OpenRecord} {t : RecordType}

/-- The field at which a record is opened holds a value of its type. -/
theorem entry_built (ht : types r.type = .ok (some t))
    (hd : t.field? field = some r.definition) (h : (Value.record r.type r.fields).Built types) :
    r.entry.Fits r.definition.type ∧ r.entry.Built types := by
  obtain ⟨⟨t', ht', hdescribes⟩, hfields⟩ := Value.built_record.mp h
  rw [ht] at ht'
  cases ht'
  rw [OpenRecord.entry]
  cases hentry : Entries.get? r.definition.name r.fields with
  | none => exact ⟨Value.null_fits _, Value.built_null types⟩
  | some v =>
    have hmem := Entries.mem_of_get? hentry
    obtain ⟨d, hd', hfits⟩ := hdescribes.typed _ v hmem
    rw [RecordType.name_of_field? hd, hd] at hd'
    cases hd'
    exact ⟨hfits, hfields _ hmem⟩

theorem close_built (ht : types r.type = .ok (some t)) (hd : t.field? field = some r.definition)
    (h : (Value.record r.type r.fields).Built types) (hfits : value.Fits r.definition.type)
    (hvalue : value.Built types) : (r.close value).Built types := by
  rw [OpenRecord.close, RecordType.name_of_field? hd]
  exact h.insert ht hd hfits hvalue

end Entry

/-- However an assignment along fields ends, the slot holds a value of its type. -/
theorem assignField_fits (hnames : types.Names slotType) (path : String) (value : Value)
    (hfits : slot.Fits slotType) (field : String) (fields : List String) :
    ((assignField path value slot slotType field fields).run types).2.Fits slotType := by
  rcases openField_cases types path slot slotType field with
    ⟨cause, left, hrun, hleft⟩ | ⟨name, t, r, hrun, -, -, -, hopened⟩
  · cases fields <;> simp only [assignField, Inquiry.run_bind, hrun] <;>
      exact hleft.fits hnames hfits
  · have hclosed := close_fits (hopened.fits hnames hfits)
    cases fields with
    | nil =>
      simp only [assignField, Inquiry.run_bind, hrun]
      split <;> exact hclosed _
    | cons next rest =>
      simp only [assignField, Inquiry.run_bind, hrun]
      exact hclosed _

/-- However the assignment of a value without records ends, the slot is built from the types. -/
theorem assignField_built (hnamed : types.Named) (path : String) (hvalue : value.RecordFree)
    (hfits : slot.Fits slotType) (hbuilt : slot.Built types) (field : String)
    (fields : List String) :
    ((assignField path value slot slotType field fields).run types).2.Built types := by
  induction fields generalizing slot slotType field with
  | nil =>
    rcases openField_built hnamed path hfits hbuilt field with
      ⟨cause, left, hrun, hleft⟩ | ⟨t, r, hrun, ht, hd, hrecord⟩
    · simp only [assignField, Inquiry.run_bind, hrun]
      exact hleft
    · simp only [assignField, Inquiry.run_bind, hrun]
      cases hcoerce : r.definition.type.coerce value with
      | error cause =>
        have hentry := entry_built ht hd hrecord
        exact close_built ht hd hrecord hentry.1 hentry.2
      | ok w =>
        have hw := SemanticType.coerce_eq_ok.mp hcoerce
        exact close_built ht hd hrecord (SemanticType.coerce?_eq_some hw).1
          ((hvalue.coerce? hw).built types)
  | cons next rest ih =>
    rcases openField_built hnamed path hfits hbuilt field with
      ⟨cause, left, hrun, hleft⟩ | ⟨t, r, hrun, ht, hd, hrecord⟩
    · simp only [assignField, Inquiry.run_bind, hrun]
      exact hleft
    · have hentry := entry_built ht hd hrecord
      -- The record is closed around what is left of the field, also when a later step fails.
      have hinner := assignField_fits (hnamed.names _) path value hentry.1 next rest
      simp only [assignField, Inquiry.run_bind, hrun]
      exact close_built ht hd hrecord hinner (ih hentry.1 hentry.2 next)

end Slots

/-! ## Calls -/

/-- What a call may do to a table. -/
inductive Moves (types : Registry) (t : VariableTable) : TableCall → VariableTable → Prop
  | stays (call : TableCall) : Moves types t call t
  | refused {name : String} {type : SemanticType} {raw : Value} {pending : List Value}
    (hpending : t.pending = raw :: pending) :
    Moves types t (.bindInput name type) { t with pending }
  | declared {name : String} {type : SemanticType} (hfresh : t.namespace? name = none) :
    Moves types t (.declareInput name type) (t.addInput name ⟨type, .null⟩)
  | bound {name : String} {type : SemanticType} {raw v : Value} {pending : List Value}
    (hfresh : t.namespace? name = none) (hpending : t.pending = raw :: pending)
    (hv : type.coerce? raw = some v) :
    Moves types t (.bindInput name type) { t.addInput name ⟨type, v⟩ with pending }
  | entered {name : String} {type : SemanticType} (hfresh : t.namespace? name = none) :
    Moves types t (.declareLocal name type) (t.setLocal name ⟨type, .null⟩)
  | assigned {call : TableCall} {name : String} {v : Variable} {value w : Value}
    (hcall : call.assigned? = some value) (hget : t.locals.get? name = some v)
    (hw : v.type.coerce? value = some w) :
    Moves types t call (t.setLocal name { v with value := w })
  | stored {path name : String} {v : Variable} {value : Value} (field : String)
    (fields : List String) (hget : t.locals.get? name = some v) :
    Moves types t (.assignPath path value) (t.setLocal name { v with
      value := ((assignField path value v.value v.type field fields).run types).2 })

theorem assign_moves (types : Registry) (t : VariableTable) {call : TableCall} {value : Value}
    (hcall : call.assigned? = some value) (name : String) :
    Moves types t call (t.assign name value).2 := by
  unfold assign
  split
  · exact .stays call
  · next v hget =>
    split
    · exact .stays call
    · next w hw => exact .assigned hcall hget (SemanticType.coerce_eq_ok.mp hw)

/-- Every call does one of these, also when it fails. -/
theorem perform_moves (types : Registry) (t : VariableTable) (call : TableCall) :
    Moves types t call (call.perform types t).2 := by
  cases call with
  | declareInput name type =>
    rw [TableCall.perform, declareInput]
    split
    · exact .stays _
    · next hfresh => exact .declared hfresh
  | bindInput name type =>
    rw [TableCall.perform, bindInput]
    split
    · exact .stays _
    · next hfresh =>
      split
      · exact .stays _
      · next raw pending hpending =>
        split
        · exact .refused hpending
        · next v hv => exact .bound hfresh hpending (SemanticType.coerce_eq_ok.mp hv)
  | declareLocal name type =>
    rw [TableCall.perform, declareLocal]
    split
    · exact .stays _
    · next hfresh => exact .entered hfresh
  | assign name value => exact assign_moves types t rfl name
  | assignPath path value =>
    rw [TableCall.perform, assignPath]
    split
    · next head _ => exact assign_moves types t rfl head
    · next head field fields _ =>
      split
      · exact .stays _
      · next v hget =>
        simp only [Inquiry.run_bind, Inquiry.run_pure]
        exact .stored field fields hget

/-! ## Declarations -/

/-- No name is declared in both namespaces. -/
def Separate (t : VariableTable) : Prop :=
  ∀ name, t.inputs.get? name = none ∨ t.locals.get? name = none

/-- Every input of the first table is in the second as it is, and every local is there with its
type. -/
structure Keeps (t t' : VariableTable) : Prop where
  inputs : ∀ name v, t.inputs.get? name = some v → t'.inputs.get? name = some v
  locals : ∀ name v, t.locals.get? name = some v →
    ∃ w, t'.locals.get? name = some { v with value := w }

theorem Keeps.refl (t : VariableTable) : Keeps t t :=
  ⟨fun _ _ h => h, fun _ v h => ⟨v.value, h⟩⟩

theorem Keeps.trans {t t' t'' : VariableTable} (h : Keeps t t') (k : Keeps t' t'') :
    Keeps t t'' where
  inputs := fun name v hv => k.inputs name v (h.inputs name v hv)
  locals := by
    intro name v hv
    obtain ⟨w, hw⟩ := h.locals name v hv
    obtain ⟨w', hw'⟩ := k.locals name _ hw
    exact ⟨w', hw'⟩

section Declarations

variable {t t' : VariableTable} {name : String} {v : Variable}

theorem Separate.addInput (h : t.Separate) (hfresh : t.locals.get? name = none) (v : Variable) :
    (t.addInput name v).Separate := by
  intro other
  rw [inputs_addInput]
  split
  · next hother => exact .inr (hother ▸ hfresh)
  · exact h other

theorem Separate.setLocal (h : t.Separate) (hfresh : t.inputs.get? name = none) (v : Variable) :
    (t.setLocal name v).Separate := by
  intro other
  rw [locals_setLocal]
  split
  · next hother => exact .inl (hother ▸ hfresh)
  · exact h other

theorem keeps_addInput (hfresh : t.inputs.get? name = none) (v : Variable) :
    Keeps t (t.addInput name v) where
  inputs := by
    intro other w hw
    rw [inputs_addInput, if_neg, hw]
    rintro rfl
    rw [hfresh] at hw
    cases hw
  locals := fun _ w hw => ⟨w.value, hw⟩

theorem keeps_setLocal_fresh (hfresh : t.locals.get? name = none) (v : Variable) :
    Keeps t (t.setLocal name v) where
  inputs := fun _ _ hw => hw
  locals := by
    intro other w hw
    refine ⟨w.value, ?_⟩
    rw [locals_setLocal, if_neg, hw]
    rintro rfl
    rw [hfresh] at hw
    cases hw

theorem keeps_setLocal (hget : t.locals.get? name = some v) (value : Value) :
    Keeps t (t.setLocal name { v with value }) where
  inputs := fun _ _ hw => hw
  locals := by
    intro other w hw
    rw [locals_setLocal]
    split
    · next hother =>
      rw [hother, hget] at hw
      cases hw
      exact ⟨value, rfl⟩
    · exact ⟨w.value, hw⟩

theorem Moves.keeps {call : TableCall} (h : Moves types t call t') : Keeps t t' := by
  cases h with
  | stays => exact .refl t
  | refused => exact ⟨fun _ _ h => h, fun _ v h => ⟨v.value, h⟩⟩
  | declared hfresh => exact keeps_addInput (namespace?_eq_none.mp hfresh).1 _
  | @bound name type raw v pending hfresh =>
    have hkeeps := keeps_addInput (namespace?_eq_none.mp hfresh).1 ⟨type, v⟩
    exact ⟨hkeeps.inputs, hkeeps.locals⟩
  | entered hfresh => exact keeps_setLocal_fresh (namespace?_eq_none.mp hfresh).2 _
  | assigned _ hget => exact keeps_setLocal hget _
  | stored field fields hget => exact keeps_setLocal hget _

theorem Moves.separate {call : TableCall} (h : Moves types t call t') (hseparate : t.Separate) :
    t'.Separate := by
  have hlocal {name : String} {v : Variable} (hget : t.locals.get? name = some v) :
      t.inputs.get? name = none := by
    rcases hseparate name with hnone | hnone
    · exact hnone
    · rw [hget] at hnone
      cases hnone
  cases h with
  | stays => exact hseparate
  | refused => exact hseparate
  | declared hfresh => exact hseparate.addInput (namespace?_eq_none.mp hfresh).2 _
  | bound hfresh => exact hseparate.addInput (namespace?_eq_none.mp hfresh).2 _
  | entered hfresh => exact hseparate.setLocal (namespace?_eq_none.mp hfresh).1 _
  | assigned _ hget => exact hseparate.setLocal (hlocal hget) _
  | stored field fields hget => exact hseparate.setLocal (hlocal hget) _

theorem after_keeps (types : Registry) (t : VariableTable) (calls : List TableCall) :
    Keeps t (t.after types calls) := by
  induction calls generalizing t with
  | nil => exact .refl t
  | cons call calls ih => exact (perform_moves types t call).keeps.trans (ih _)

theorem after_separate (types : Registry) (h : t.Separate) (calls : List TableCall) :
    (t.after types calls).Separate := by
  induction calls generalizing t with
  | nil => exact h
  | cons call calls ih => exact ih ((perform_moves types t call).separate h)

end Declarations

/-! ## Values -/

section Values

variable {t t' : VariableTable} {P : Variable → Prop} {good : Value → Prop}

/-- A property of variables that a fresh one has, that coerced values of this sort give to a
variable, and that storing values of this sort along fields keeps. -/
structure Maintained (types : Registry) (good : Value → Prop) (P : Variable → Prop) : Prop where
  null : ∀ type, P ⟨type, .null⟩
  coerced : ∀ type raw v, good raw → type.coerce? raw = some v → P ⟨type, v⟩
  stored : ∀ v path value field fields, P v → good value →
    P { v with value := ((assignField path value v.value v.type field fields).run types).2 }

/-- The queued values are of this sort, and every variable has this property. -/
structure Holds (good : Value → Prop) (P : Variable → Prop) (t : VariableTable) : Prop where
  pending : ∀ v ∈ t.pending, good v
  values : ∀ name v, t.get? name = some v → P v

theorem Moves.holds {call : TableCall} (hP : Maintained types good P) (h : Moves types t call t')
    (hcall : ∀ value, call.assigned? = some value → good value) (ht : t.Holds good P) :
    t'.Holds good P := by
  have hlocal {name : String} {v : Variable} (hget : t.locals.get? name = some v) : P v := by
    refine ht.values name v ?_
    rw [get?, hget]
    rfl
  have hset {name : String} {v : Variable} (hv : P v) : (t.setLocal name v).Holds good P := by
    refine ⟨ht.pending, fun other w hw => ?_⟩
    rw [get?_setLocal] at hw
    split at hw
    · cases hw
      exact hv
    · exact ht.values other w hw
  have hadd {name : String} {v : Variable} (hfresh : t.namespace? name = none) (hv : P v) :
      (t.addInput name v).Holds good P := by
    refine ⟨ht.pending, fun other w hw => ?_⟩
    rw [get?_addInput hfresh] at hw
    split at hw
    · cases hw
      exact hv
    · exact ht.values other w hw
  cases h with
  | stays => exact ht
  | refused hpending =>
    have hqueue := hpending ▸ ht.pending
    exact ⟨(List.forall_mem_cons.mp hqueue).2, ht.values⟩
  | declared hfresh => exact hadd hfresh (hP.null _)
  | bound hfresh hpending hv =>
    have hqueue := hpending ▸ ht.pending
    obtain ⟨hraw, hrest⟩ := List.forall_mem_cons.mp hqueue
    exact ⟨hrest, (hadd hfresh (hP.coerced _ _ _ hraw hv)).values⟩
  | entered hfresh => exact hset (hP.null _)
  | assigned hvalue hget hw => exact hset (hP.coerced _ _ _ (hcall _ hvalue) hw)
  | stored field fields hget =>
    exact hset (hP.stored _ _ _ field fields (hlocal hget) (hcall _ rfl))

theorem after_holds (hP : Maintained types good P) (ht : t.Holds good P) {calls : List TableCall}
    (hcalls : ∀ call ∈ calls, ∀ value, call.assigned? = some value → good value) :
    (t.after types calls).Holds good P := by
  induction calls generalizing t with
  | nil => exact ht
  | cons call calls ih =>
    obtain ⟨hcall, hcalls⟩ := List.forall_mem_cons.mp hcalls
    exact ih ((perform_moves types t call).holds hP hcall ht) hcalls

theorem maintained_fits (types : Registry) :
    Maintained types (fun _ => True) fun v => types.Names v.type → v.value.Fits v.type where
  null := fun type _ => Value.null_fits type
  coerced := fun _ _ _ _ hv _ => (SemanticType.coerce?_eq_some hv).1
  stored := fun _ path value field fields hv _ hnames =>
    assignField_fits hnames path value (hv hnames) field fields

theorem maintained_built (hnamed : types.Named) :
    Maintained types Value.RecordFree fun v => v.value.Fits v.type ∧ v.value.Built types where
  null := fun type => ⟨Value.null_fits type, Value.built_null types⟩
  coerced := fun _ _ _ hraw hv =>
    ⟨(SemanticType.coerce?_eq_some hv).1, (hraw.coerce? hv).built types⟩
  stored := fun _ path value field fields hv hvalue =>
    ⟨assignField_fits (hnamed.names _) path value hv.1 field fields,
      assignField_built hnamed path hvalue hv.1 hv.2 field fields⟩

end Values

section Invariant

variable {values : List Value} {calls : List TableCall} {name : String} {v : Variable}

theorem holds_withInputs {good : Value → Prop} {P : Variable → Prop}
    (hvalues : ∀ v ∈ values, good v) : (withInputs values).Holds good P := ⟨hvalues, nofun⟩

/-- After any calls a variable holds a value of its type, if this is registered under its own
name. -/
theorem after_fits (hv : ((withInputs values).after types calls).get? name = some v)
    (hnames : types.Names v.type) : v.value.Fits v.type := by
  have hfits : ((withInputs values).after types calls).Holds (fun _ => True)
      fun v => types.Names v.type → v.value.Fits v.type :=
    after_holds (maintained_fits types) (holds_withInputs fun _ _ => trivial)
      fun _ _ _ _ => trivial
  exact hfits.values name v hv hnames

/-- If no records are handed in, every record in a variable is as its type describes it. -/
theorem after_built (hnamed : types.Named) (hvalues : ∀ value ∈ values, value.RecordFree)
    (hcalls : ∀ call ∈ calls, ∀ value, call.assigned? = some value → value.RecordFree)
    (hv : ((withInputs values).after types calls).get? name = some v) : v.value.Built types := by
  have hbuilt : ((withInputs values).after types calls).Holds Value.RecordFree
      fun v => v.value.Fits v.type ∧ v.value.Built types :=
    after_holds (maintained_built hnamed) (holds_withInputs hvalues) hcalls
  exact (hbuilt.values name v hv).2

end Invariant

/-- After any calls the namespaces are separate, and later calls keep the inputs as they are and
the locals with their types. A variable whose type is registered under its own name, if it is
registered at all, holds a value that coercion to its type leaves as it is. When all types are
registered under their own names and no records are handed in, every record in a variable is as its
type describes it. The registries of the library are all named in this way: a fixed list of types
(`Registry.named_ofTypes`), what is stored (`storedTypes_named`), and what an engine has compiled
(`Engine.Registered.named`). -/
theorem after_invariant (types : Registry) (values : List Value) (calls later : List TableCall) :
    ((withInputs values).after types calls).Separate ∧
    Keeps ((withInputs values).after types calls)
      ((withInputs values).after types (calls ++ later)) ∧
    ∀ name v, ((withInputs values).after types calls).get? name = some v →
      (types.Names v.type → v.type.coerce v.value = .ok v.value) ∧
      (types.Named → (∀ value ∈ values, value.RecordFree) →
        (∀ call ∈ calls, ∀ value, call.assigned? = some value → value.RecordFree) →
        ∀ type fields, .record type fields ∈ v.value.parts →
          ∃ t, types type = .ok (some t) ∧ t.Describes fields) := by
  have hafter : (withInputs values).after types (calls ++ later) =
      ((withInputs values).after types calls).after types later := List.foldl_append ..
  refine ⟨after_separate types (fun _ => .inl rfl) calls, ?_, fun name v hv => ⟨fun hnames => ?_, ?_⟩⟩
  · rw [hafter]
    exact after_keeps types _ later
  · exact SemanticType.coerce_eq_ok.mpr (after_fits hv hnames)
  · exact fun hnamed hvalues hcalls => after_built hnamed hvalues hcalls hv

/-- An assignment fails behind a record that it has created, and the record is a fresh one. -/
theorem after_invariant_failing :
    let types := Registry.ofTypes [⟨.record "Order", [⟨"count", .primitive .integer⟩]⟩]
    let declare : TableCall := .declareLocal "order" (.record (.record "Order"))
    let assign : TableCall := .assignPath "order.count" (.string "few")
    (assign.perform types ((withInputs []).after types [declare])).1 =
        .error (.invalidValue "order.count" ⟨"few", "Integer"⟩) ∧
      types.Named ∧ ∃ v, ((withInputs []).after types [declare, assign]).get? "order" = some v ∧
        v.value = .record (.record "Order") [("count", .null)] ∧
        v.type.coerce v.value = .ok v.value ∧
        ∃ orders, types (.record "Order") = .ok (some orders) ∧
          orders.Describes [("count", .null)] := by
  intro types declare assign
  have hnamed : types.Named := Registry.named_ofTypes _
  have hget : ((withInputs []).after types [declare, assign]).get? "order" =
      some ⟨.record (.record "Order"), .record (.record "Order") [("count", .null)]⟩ := by
    rfl
  obtain ⟨-, -, hvalues⟩ := after_invariant types [] [declare, assign] []
  obtain ⟨hcoerce, hrecords⟩ := hvalues "order" _ hget
  have hfree : (Value.string "few").RecordFree := Value.recordFree_of_isPlain _ rfl
  refine ⟨rfl, hnamed, _, hget, rfl, hcoerce (hnamed.names _),
    hrecords hnamed nofun ?_ _ _ (Value.self_mem_parts _)⟩
  intro call hcall value hvalue
  rcases List.mem_cons.mp hcall with rfl | hcall
  · cases hvalue
  · obtain rfl := List.mem_singleton.mp hcall
    cases hvalue
    exact hfree

/-- A registry that answers to one name with a type of another name. -/
def misnamed : Registry := fun name =>
  .ok (if name = .record "Order" then some ⟨.record "Sale", [⟨"count", .primitive .integer⟩]⟩
    else none)

/-- A type that lists one name twice. -/
def doubled : RecordType :=
  ⟨.record "Order", [⟨"count", .primitive .integer⟩, ⟨"count", .primitive .string⟩]⟩

/-- A field of an order is assigned. -/
def ordering : List TableCall :=
  [.declareLocal "order" (.record (.record "Order")), .assignPath "order.count" (.integer 5)]

/-- Where a type is registered under another name, a variable may hold a record that is not of its
type, and whose own type is not registered. Where a type lists a name twice, the value under it may
belong to the first of the two types alone. -/
theorem after_misdescribed :
    (∃ v, ((withInputs []).after misnamed ordering).get? "order" = some v ∧
      v.value = .record (.record "Sale") [("count", .integer 5)] ∧
      v.type.coerce v.value ≠ .ok v.value ∧ misnamed (.record "Sale") = .ok none) ∧
    ∃ v, ((withInputs []).after (.ofTypes [doubled]) ordering).get? "order" = some v ∧
      v.value = .record (.record "Order") [("count", .integer 5)] ∧
      ∃ d ∈ doubled.fields, d.name = "count" ∧
        d.type.coerce (.integer 5) ≠ .ok (.integer 5) := by
  have hsale : (SemanticType.record (.record "Order")).coerce?
      (.record (.record "Sale") [("count", .integer 5)]) = none := by decide +kernel
  have hstring : (SemanticType.primitive .string).coerce? (.integer 5) =
      some (.string (Value.integer 5).text) := rfl
  constructor
  · refine ⟨⟨.record (.record "Order"), .record (.record "Sale") [("count", .integer 5)]⟩,
      by with_unfolding_all rfl, rfl, fun h => ?_, rfl⟩
    cases hsale.symm.trans (SemanticType.coerce_eq_ok.mp h)
  · refine ⟨⟨.record (.record "Order"), .record (.record "Order") [("count", .integer 5)]⟩,
      by with_unfolding_all rfl, rfl, ⟨"count", .primitive .string⟩, List.mem_cons_of_mem _ List.mem_cons_self, rfl,
      fun h => ?_⟩
    cases Option.some.inj (hstring.symm.trans (SemanticType.coerce_eq_ok.mp h))

end VariableTable

end Scriptorium

import Scriptorium.Proofs.Target.Safety
import Scriptorium.Proofs.Variable.Calls

/-!
# Assignment along a path of fields

An assignment goes down a path of fields and stores a value in the slot at its end.
`Assigns` says what it leaves of a slot: nulls on the way are fresh records, and at
the end stands the coerced value, unless the assignment has failed. Then an access
that leaves the path finds what it found before, and after a failure so does one
that goes along the whole path or further.
-/

namespace Scriptorium

namespace Access

/-- The access that a path spells: a variable, and fields with points in front of them. -/
def ofPath (path : String) : Access :=
  let (head, fields) := Text.pieces '.' path
  ⟨head, fields.map .field⟩

/-- The second access takes the steps of the first one before any others. -/
def Begins (a b : Access) : Prop := a.head = b.head ∧ a.steps <+: b.steps

instance (a b : Access) : Decidable (a.Begins b) := inferInstanceAs (Decidable (_ ∧ _))

end Access

namespace VariableTable

variable {types : Registry} {value : Value}

/-- What an assignment with this outcome leaves of a slot of this type, along these fields. Nulls on
the way become fresh records, and fields that a record on the way lacks become null. -/
inductive Assigns (types : Registry) (value : Value) :
    Except VariableError Unit → SemanticType → List String → Value → Value → Prop
  | stored {type : SemanticType} {w : Value} (hw : type.coerce value = .ok w) (slot : Value) :
    Assigns types value (.ok ()) type [] slot w
  | refused (cause : VariableError) (type : SemanticType) (fields : List String) (slot : Value) :
    Assigns types value (.error cause) type fields slot slot
  | fresh {outcome : Except VariableError Unit} {name : QualifiedName} {t : RecordType}
    {field : String} {fields : List String} {left : Value} (ht : types name = .ok (some t))
    (h : Assigns types value outcome (.record name) (field :: fields) t.instantiate left) :
    Assigns types value outcome (.record name) (field :: fields) .null left
  | field {outcome : Except VariableError Unit} {name type : QualifiedName} {t : RecordType}
    {d : FieldDefinition} {field : String} {fields : List String}
    {entries : List (String × Value)} {left : Value} (ht : types name = .ok (some t))
    (hd : t.field? field = some d)
    (h : Assigns types value outcome d.type fields ((Entries.get? field entries).getD .null)
      left) :
    Assigns types value outcome (.record name) (field :: fields) (.record type entries)
      (.record type (Entries.insert field left entries))

/-! ## What an assignment leaves of a slot -/

section Slots

variable {path field : String} {fields : List String} {name type : QualifiedName} {t : RecordType}
  {entries : List (String × Value)}

/-- A null slot is opened like one with a fresh record. -/
theorem openField_null (ht : types name = .ok (some t)) :
    (openField path .null (.record name) field).run types =
      (openField path t.instantiate (.record name) field).run types := by
  simp only [openField, Inquiry.run_bind, Inquiry.run_lookup, ht]
  rfl

/-- A record is opened at the fields of its slot's type. -/
theorem openField_record (path : String) (ht : types name = .ok (some t)) (type : QualifiedName)
    (entries : List (String × Value)) (field : String) :
    (openField path (.record type entries) (.record name) field).run types =
      match t.field? field with
      | none => .error (.invalidPath path (.noSuchField (.record name) field), .record type entries)
      | some d => .ok ⟨type, entries, d⟩ := by
  simp only [openField, Inquiry.run_bind, Inquiry.run_lookup, ht]
  cases t.field? field <;> rfl

/-- An assignment to null is one to a fresh record. -/
theorem assignField_null (path : String) (value : Value) (ht : types name = .ok (some t))
    (field : String) (fields : List String) :
    (assignField path value .null (.record name) field fields).run types =
      (assignField path value t.instantiate (.record name) field fields).run types := by
  cases fields <;> simp only [assignField, Inquiry.run_bind, openField_null ht]

/-- An assignment that does not open its slot leaves it. -/
theorem assigns_refused {slot : Value} {slotType : SemanticType} {cause : VariableError}
    (h : (openField path slot slotType field).run types = .error (cause, slot)) :
    let result := (assignField path value slot slotType field fields).run types
    Assigns types value result.1 slotType (field :: fields) slot result.2 := by
  cases fields <;> simp only [assignField, Inquiry.run_bind, h] <;> exact .refused ..

/-- An assignment that opens the record in its slot assigns to it if it does so further down. -/
theorem assigns_record (path : String) (value : Value) (ht : types name = .ok (some t))
    (type : QualifiedName) (entries : List (String × Value)) (field : String)
    (hrest : ∀ next rest slot slotType, fields = next :: rest →
      let result := (assignField path value slot slotType next rest).run types
      Assigns types value result.1 slotType (next :: rest) slot result.2) :
    let result := (assignField path value (.record type entries) (.record name) field fields).run
      types
    Assigns types value result.1 (.record name) (field :: fields) (.record type entries)
      result.2 := by
  have hopen := openField_record path ht type entries field
  cases hd : t.field? field with
  | none =>
    rw [hd] at hopen
    exact assigns_refused hopen
  | some d =>
    rw [hd] at hopen
    have hname := RecordType.name_of_field? hd
    cases fields with
    | nil =>
      simp only [assignField, Inquiry.run_bind, hopen, OpenRecord.close, OpenRecord.entry, hname]
      cases hcoerce : d.type.coerce value with
      | error cause => exact .field ht hd (.refused ..)
      | ok w => exact .field ht hd (.stored hcoerce _)
    | cons next rest =>
      simp only [assignField, Inquiry.run_bind, hopen, OpenRecord.close, OpenRecord.entry, hname]
      exact .field ht hd (hrest next rest _ _ rfl)

/-- An assignment to any slot ends as its outcome says if assignments to records do. -/
theorem assigns_slot {slot : Value} {slotType : SemanticType}
    (hrecord : ∀ name t type entries, slotType = .record name → types name = .ok (some t) →
      let result := (assignField path value (.record type entries) slotType field fields).run types
      Assigns types value result.1 slotType (field :: fields) (.record type entries) result.2) :
    let result := (assignField path value slot slotType field fields).run types
    Assigns types value result.1 slotType (field :: fields) slot result.2 := by
  cases slotType with
  | primitive kind => exact assigns_refused rfl
  | array => exact assigns_refused rfl
  | record name =>
    rcases ht : types name with cause | _ | t
    · apply assigns_refused
      simp only [openField, Inquiry.run_bind, Inquiry.run_lookup, ht]
      rfl
    · apply assigns_refused
      simp only [openField, Inquiry.run_bind, Inquiry.run_lookup, ht]
      rfl
    · cases slot with
      | record type entries => exact hrecord name t type entries rfl ht
      | null =>
        rw [assignField_null path value ht]
        exact .fresh ht (hrecord name t t.name t.freshFields rfl ht)
      | _ =>
        apply assigns_refused
        simp only [openField, Inquiry.run_bind, Inquiry.run_lookup, ht]
        rfl

/-- However an assignment along fields ends, it leaves of the slot what its outcome says. -/
theorem assignField_assigns (types : Registry) (path : String) (value slot : Value)
    (slotType : SemanticType) (field : String) (fields : List String) :
    let result := (assignField path value slot slotType field fields).run types
    Assigns types value result.1 slotType (field :: fields) slot result.2 := by
  induction fields generalizing slot slotType field with
  | nil =>
    refine assigns_slot fun name t type entries hname ht => ?_
    subst hname
    exact assigns_record path value ht type entries field nofun
  | cons next rest ih =>
    refine assigns_slot fun name t type entries hname ht => ?_
    subst hname
    refine assigns_record path value ht type entries field fun _ _ slot slotType hfields => ?_
    cases hfields
    exact ih slot slotType next

end Slots

/-! ## What accesses find -/

namespace Assigns

variable {outcome : Except VariableError Unit} {type : SemanticType} {fields : List String}
  {slot left found : Value}

/-- The slot at the end of the path has a type, and behind a successful assignment it holds the
value coerced to this type. -/
theorem reaches (h : Assigns types value outcome type fields slot left) (hok : outcome = .ok ()) :
    ∃ slotType w, Expression.slotType? types type fields = some slotType ∧
      slotType.coerce value = .ok w ∧
      ∀ path, Evaluate.follow path left (fields.map .field) = .ok w := by
  induction h with
  | stored hw slot => exact ⟨_, _, rfl, hw, fun path => rfl⟩
  | refused => cases hok
  | fresh ht h ih => exact ih hok
  | @field outcome name type t d field fields entries left ht hd h ih =>
    obtain ⟨slotType, w, htype, hw, hfollow⟩ := ih hok
    refine ⟨slotType, w, ?_, hw, fun path => ?_⟩
    · exact Expression.slotType?_cons.mpr ⟨name, t, d, rfl, ht, hd, htype⟩
    · rw [List.map_cons, Evaluate.follow, Evaluate.step, Entries.get?_insert_self]
      exact hfollow _

/-- Steps that do not end on the way find what they found before, behind the end of the path too
when the assignment has failed. -/
theorem follow (h : Assigns types value outcome type fields slot left) {path : String}
    {steps : List Step} (hfound : Evaluate.follow path slot steps = .ok found)
    (hbefore : steps <+: fields.map .field → steps = fields.map .field)
    (hbehind : outcome = .ok () → ¬ fields.map .field <+: steps) :
    Evaluate.follow path left steps = .ok found := by
  induction h generalizing path steps with
  | stored hw slot => exact absurd List.nil_prefix (hbehind rfl)
  | refused => exact hfound
  | fresh ht h ih =>
    cases steps with
    | nil => cases hbefore List.nil_prefix
    | cons s steps => cases s <;> cases hfound
  | @field outcome name type t d field fields entries left ht hd h ih =>
    cases steps with
    | nil => cases hbefore List.nil_prefix
    | cons s steps =>
      rw [Evaluate.follow] at hfound ⊢
      cases hs : Evaluate.step path (.record type entries) s with
      | error cause =>
        rw [hs] at hfound
        cases hfound
      | ok part =>
        rw [hs] at hfound
        cases s with
        | index n => cases hs
        | field other =>
          obtain ⟨_, _, hslot, hget⟩ := Evaluate.step_field_eq_ok hs
          cases hslot
          by_cases hother : other = field
          · subst hother
            rw [hget] at ih
            rw [Evaluate.step, Entries.get?_insert_self]
            refine ih hfound (fun hsteps => ?_) (fun hok hsteps => ?_)
            · exact List.cons.inj (hbefore (List.cons_prefix_cons.mpr ⟨rfl, hsteps⟩)) |>.2
            · exact hbehind hok (List.cons_prefix_cons.mpr ⟨rfl, hsteps⟩)
          · rw [Evaluate.step, Entries.get?_insert_of_ne hother, hget]
            exact hfound

/-- What may be assigned is. -/
theorem assigned {first : String} (h : Assigns types value outcome type (first :: fields) slot left)
    (hok : outcome = .ok ()) (path : String) :
    (assignField path value slot type first fields).run types = (.ok (), left) := by
  generalize hfields : first :: fields = all at h
  induction h generalizing first fields with
  | stored hw slot => cases hfields
  | refused => cases hok
  | fresh ht h ih =>
    cases hfields
    rw [assignField_null path value ht]
    exact ih hok rfl
  | @field outcome name type t d _ _ entries left ht hd h ih =>
    obtain ⟨rfl, rfl⟩ := List.cons.inj hfields
    have hopen := openField_record path ht type entries first
    have hname := RecordType.name_of_field? hd
    rw [hd] at hopen
    cases fields with
    | nil =>
      obtain ⟨slotType, w, htype, hw, hfollow⟩ := h.reaches hok
      cases htype
      cases hfollow path
      simp only [assignField, Inquiry.run_bind, hopen, OpenRecord.close, hname, hw]
      rfl
    | cons next rest =>
      simp only [assignField, Inquiry.run_bind, hopen, OpenRecord.close, OpenRecord.entry, hname,
        ih hok rfl]
      rfl

end Assigns

/-! ## Assignments to variables -/

section Assignments

variable {t : VariableTable}

/-- An assignment leaves the table as it is, or it assigns to a local. -/
theorem assignPath_assigns (types : Registry) (t : VariableTable) (path : String) (value : Value) :
    let result := (t.assignPath path value).run types
    (∃ cause, result = (.error cause, t)) ∨
      ∃ v left, t.locals.get? (Access.ofPath path).head = some v ∧
        Assigns types value result.1 v.type (Text.pieces '.' path).2 v.value left ∧
        result.2 = t.setLocal (Access.ofPath path).head { v with value := left } := by
  unfold assignPath Access.ofPath
  split
  · next head hpath =>
    simp only [hpath, Inquiry.run_pure, assign]
    split
    · exact .inl ⟨_, rfl⟩
    · next v hget =>
      split
      · exact .inl ⟨_, rfl⟩
      · next w hw => exact .inr ⟨v, w, hget, .stored hw v.value, rfl⟩
  · next head field fields hpath =>
    simp only [hpath]
    split
    · exact .inl ⟨_, rfl⟩
    · next v hget =>
      simp only [Inquiry.run_bind, Inquiry.run_pure]
      exact .inr ⟨v, _, hget, assignField_assigns types path value v.value v.type field fields, rfl⟩

/-- A path along which a local may be assigned to is assigned to. -/
theorem assignPath_assigned {path : String} {v : Variable} {left : Value}
    (hget : t.locals.get? (Text.pieces '.' path).1 = some v)
    (h : Assigns types value (.ok ()) v.type (Text.pieces '.' path).2 v.value left) :
    ((t.assignPath path value).run types).1 = .ok () := by
  unfold assignPath
  split
  · next head hpath =>
    rw [hpath] at hget h
    obtain ⟨type, w, htype, hw, -⟩ := h.reaches rfl
    cases htype
    simp only [Inquiry.run_pure, assign, hget, hw]
  · next head field rest hpath =>
    rw [hpath] at hget h
    simp only [hget, Inquiry.run_bind, h.assigned rfl path]
    rfl

/-- An assignment that succeeds assigns to a local. -/
theorem assignPath_ok {path : String} (hok : ((t.assignPath path value).run types).1 = .ok ()) :
    ∃ v left, t.locals.get? (Access.ofPath path).head = some v ∧
      Assigns types value (.ok ()) v.type (Text.pieces '.' path).2 v.value left ∧
      ((t.assignPath path value).run types).2 =
        t.setLocal (Access.ofPath path).head { v with value := left } := by
  rcases assignPath_assigns types t path value with ⟨cause, hrefused⟩ | ⟨v, left, hget, h, hleft⟩
  · rw [hrefused] at hok
    cases hok
  · exact ⟨v, left, hget, hok ▸ h, hleft⟩

/-- Another value of a local changes no declared type. -/
theorem types_setLocal {head : String} {v : Variable} (hget : t.locals.get? head = some v)
    (left : Value) (name : String) :
    ((t.setLocal head { v with value := left }).locals.get? name).map (·.type) =
      (t.locals.get? name).map (·.type) := by
  rw [locals_setLocal]
  split
  · next hname =>
    rw [hname, hget]
    rfl
  · rfl

/-- A table in which the assigned local is updated answers an access that does not end on the way as
before, behind the end of the path too when the assignment has failed. -/
theorem resolve_setLocal {path : String} {outcome : Except VariableError Unit} {v : Variable}
    {left w : Value} {a : Access} (hget : t.locals.get? (Access.ofPath path).head = some v)
    (h : Assigns types value outcome v.type (Text.pieces '.' path).2 v.value left)
    (hfound : Evaluate.resolve t a = .ok w)
    (hbefore : a.Begins (Access.ofPath path) → a = Access.ofPath path)
    (hbehind : outcome = .ok () → ¬ (Access.ofPath path).Begins a) :
    Evaluate.resolve (t.setLocal (Access.ofPath path).head { v with value := left }) a =
      .ok w := by
  unfold Evaluate.resolve at hfound ⊢
  rw [get?_setLocal]
  by_cases hhead : a.head = (Access.ofPath path).head
  · have hv : t.get? a.head = some v := by
      rw [get?, hhead, hget]
      rfl
    rw [hv] at hfound
    rw [if_pos hhead]
    refine h.follow hfound (fun hsteps => ?_) fun hok hsteps => ?_
    · exact congrArg Access.steps (hbefore ⟨hhead, hsteps⟩)
    · exact hbehind hok ⟨hhead.symm, hsteps⟩
  · rw [if_neg hhead]
    exact hfound

/-- An assignment succeeds where one can be, and then the path leads to the value, coerced to the
type of the slot at its end, and accesses that neither end on the path nor go on behind it find what
they found. A failed one leaves all that does not end on the way before its end, and changes no
declaration, input or queued value: at most the local has fresh records for nulls, and nulls for
missing fields, on the way. -/
theorem assignPath_updates (types : Registry) (t : VariableTable) (path : String) (value : Value) :
    let p := Access.ofPath path
    let fields := (Text.pieces '.' path).2
    let result := (t.assignPath path value).run types
    (result.1 = .ok () ↔ ∃ v left, t.locals.get? p.head = some v ∧
      Assigns types value (.ok ()) v.type fields v.value left) ∧
    (result.1 = .ok () →
      (∃ v type w, t.locals.get? p.head = some v ∧
        Expression.slotType? types v.type fields = some type ∧ type.coerce value = .ok w ∧
        Evaluate.resolve result.2 p = .ok w) ∧
      ∀ a w, Evaluate.resolve t a = .ok w → ¬ a.Begins p → ¬ p.Begins a →
        Evaluate.resolve result.2 a = .ok w) ∧
    (∀ cause, result.1 = .error cause →
      (∀ a w, Evaluate.resolve t a = .ok w → ¬ (a.Begins p ∧ a ≠ p) →
        Evaluate.resolve result.2 a = .ok w) ∧
      result.2.inputs = t.inputs ∧ result.2.pending = t.pending ∧
      (∀ name, (result.2.locals.get? name).map (·.type) = (t.locals.get? name).map (·.type)) ∧
      (result.2 = t ∨ ∃ v left, t.locals.get? p.head = some v ∧
        Assigns types value (.error cause) v.type fields v.value left ∧
        result.2 = t.setLocal p.head { v with value := left })) := by
  intro p fields result
  refine ⟨⟨fun hok => ?_, fun ⟨v, left, hget, h⟩ => assignPath_assigned hget h⟩, fun hok => ?_,
    fun cause hcause => ?_⟩
  · obtain ⟨v, left, hget, h, -⟩ := assignPath_ok hok
    exact ⟨v, left, hget, h⟩
  · obtain ⟨v, left, hget, h, hleft⟩ := assignPath_ok hok
    have hleft : result.2 = t.setLocal p.head { v with value := left } := hleft
    obtain ⟨type, w, htype, hw, hfollow⟩ := h.reaches rfl
    rw [hleft]
    refine ⟨⟨v, type, w, hget, htype, hw, ?_⟩, fun a found hfound hbefore hbehind => ?_⟩
    · rw [Evaluate.resolve, get?_setLocal, if_pos rfl]
      exact hfollow p.head
    · exact resolve_setLocal hget h hfound (fun ha => absurd ha hbefore) fun _ => hbehind
  · have hcases : (∃ cause, result = (.error cause, t)) ∨ _ :=
      assignPath_assigns types t path value
    rcases hcases with ⟨cause', hrefused⟩ | ⟨v, left, hget, h, hleft⟩
    · rw [hrefused]
      exact ⟨fun a found hfound _ => hfound, rfl, rfl, fun name => rfl, .inl rfl⟩
    · have hkept (a : Access) (w : Value) (hfound : Evaluate.resolve t a = .ok w)
          (hbefore : ¬ (a.Begins p ∧ a ≠ p)) : Evaluate.resolve result.2 a = .ok w := by
        rw [hleft]
        refine resolve_setLocal hget h hfound (fun ha => ?_) fun hok => ?_
        · exact not_not.mp fun hne => hbefore ⟨ha, hne⟩
        · cases hcause.symm.trans hok
      refine ⟨hkept, ?_, ?_, fun name => ?_, .inr ⟨v, left, hget, hcause ▸ h, hleft⟩⟩
      · rw [hleft]
        rfl
      · rw [hleft]
        rfl
      · rw [hleft]
        exact types_setLocal hget left name

/-- A name is stored in a record that was missing, and the count beside it stays; an age that is no
integer is refused, and the name stays. -/
theorem assignPath_updates_nested :
    let types := Registry.ofTypes
      [⟨.record "Customer", [⟨"age", .primitive .integer⟩, ⟨"name", .primitive .string⟩]⟩,
        ⟨.record "Order", [⟨"count", .primitive .integer⟩,
          ⟨"customer", .record (.record "Customer")⟩]⟩]
    let order : Variable := ⟨.record (.record "Order"), .record (.record "Order")
      [("count", .integer 3), ("customer", .null)]⟩
    let named := ((empty.setLocal "order" order).assignPath "order.customer.name"
      (.string "Ada")).run types
    let aged := (named.2.assignPath "order.customer.age" (.string "old")).run types
    named.1 = .ok () ∧ aged.1 = .error (.invalidValue "order.customer.age" ⟨"old", "Integer"⟩) ∧
      Evaluate.resolve named.2 (.ofPath "order.customer.name") = .ok (.string "Ada") ∧
      Evaluate.resolve named.2 (.ofPath "order.count") = .ok (.integer 3) ∧
      Evaluate.resolve aged.2 (.ofPath "order.customer.name") = .ok (.string "Ada") ∧
      aged.2.pending = [] := by
  intro types order named aged
  have hnamed : named.1 = .ok () := by rfl
  have haged : aged.1 = .error (.invalidValue "order.customer.age" ⟨"old", "Integer"⟩) := by rfl
  obtain ⟨-, hstored, -⟩ := assignPath_updates types (empty.setLocal "order" order)
    "order.customer.name" (.string "Ada")
  obtain ⟨⟨v, type, w, hv, htype, hw, hname⟩, hothers⟩ := hstored hnamed
  obtain rfl : order = v := Option.some.inj hv
  obtain rfl : .primitive .string = type := Option.some.inj htype
  obtain rfl : Value.string "Ada" = w := Except.ok.inj hw
  obtain ⟨-, -, hrefused⟩ := assignPath_updates types named.2 "order.customer.age" (.string "old")
  obtain ⟨hkept, -, hpending, -, -⟩ := hrefused _ haged
  refine ⟨hnamed, haged, hname, ?_, ?_, hpending⟩
  · exact hothers (.ofPath "order.count") _ (by rfl) (by decide) (by decide)
  · exact hkept (.ofPath "order.customer.name") _ hname (by decide)

end Assignments

end VariableTable

end Scriptorium

import Scriptorium.Proofs.Decimal.Number
import Scriptorium.Record.Inquiry

/-!
# Sound values

A value is sound when no decimal in it fails to be a number and every record in
it has the fields of its registered type, each with a value that belongs to the
type of the field. A value belongs to a type when coercion leaves it as it is.
Input values without records become sound values, and coercion keeps them so.
-/

namespace Scriptorium

namespace Entries

variable {α β : Type}

/-- Of entries listed in any order, a key that is listed with one value has this value. -/
theorem get?_ofList_map {as : List α} {key : α → String} {v : β} {k : String}
    (h : ∃ a ∈ as, key a = k) : get? k (ofList (as.map fun a => (key a, v))) = some v := by
  have hfold (as : List α) (es : Entries String β)
      (h : get? k es = some v ∨ ∃ a ∈ as, key a = k) :
      get? k ((as.map fun a => (key a, v)).foldl (fun acc e => insert e.1 e.2 acc) es) = some v := by
    induction as generalizing es with
    | nil =>
      rcases h with h | ⟨a, ha, -⟩
      · exact h
      · cases ha
    | cons a as ih =>
      refine ih _ ?_
      by_cases hkey : k = key a
      · subst hkey
        exact .inl (get?_insert_self _ _ _)
      · rw [get?_insert_of_ne hkey]
        rcases h with h | ⟨b, hb, hk⟩
        · exact .inl h
        · rcases List.mem_cons.mp hb with rfl | hb
          · exact absurd hk.symm hkey
          · exact .inr ⟨b, hb, hk⟩
  exact hfold as [] (.inr h)

end Entries

theorem RecordType.name_of_field? {t : RecordType} {field : String} {d : FieldDefinition}
    (h : t.field? field = some d) : d.name = field := by
  have hfound := List.find?_some h
  simpa using hfound

/-- The value belongs to the type as it is. -/
def Value.Fits (v : Value) (type : SemanticType) : Prop := type.coerce? v = some v

theorem Value.null_fits (type : SemanticType) : Value.null.Fits type := by
  unfold Fits SemanticType.coerce?
  cases type <;> rfl

namespace Value

/-- Every decimal in the value is a number, and every record in it has the fields of its type. -/
inductive Sound (types : Registry) : Value → Prop
  | null : Sound types .null
  | integer (n : Int64) : Sound types (.integer n)
  | decimal {d : Decimal} (h : d ≠ .nan) : Sound types (.decimal d)
  | boolean (b : Bool) : Sound types (.boolean b)
  | string (s : String) : Sound types (.string s)
  | array {items : List Value} (h : ∀ v ∈ items, Sound types v) : Sound types (.array items)
  | record {t : RecordType} {name : QualifiedName} {fields : List (String × Value)}
    (values : String → Value) (ht : types name = .ok (some t))
    (hget : ∀ field d, t.field? field = some d → Entries.get? field fields = some (values field))
    (hfits : ∀ field d, t.field? field = some d → (values field).Fits d.type)
    (hsound : ∀ field d, t.field? field = some d → Sound types (values field)) :
    Sound types (.record name fields)

variable {types : Registry} {v : Value}

/-- A field of a sound record has a sound value of the field's type. -/
theorem Sound.field {name : QualifiedName} {t : RecordType} {fields : List (String × Value)}
    {field : String} {d : FieldDefinition} (h : Sound types (.record name fields))
    (ht : types name = .ok (some t)) (hd : t.field? field = some d) :
    ∃ v, Entries.get? field fields = some v ∧ v.Fits d.type ∧ v.Sound types := by
  cases h with
  | record values ht' hget hfits hsound =>
    rw [ht] at ht'
    cases ht'
    exact ⟨values field, hget field d hd, hfits field d hd, hsound field d hd⟩

theorem Sound.of_fields {name : QualifiedName} {t : RecordType} {fields : List (String × Value)}
    (ht : types name = .ok (some t))
    (h : ∀ field d, t.field? field = some d →
      ∃ v, Entries.get? field fields = some v ∧ v.Fits d.type ∧ v.Sound types) :
    Sound types (.record name fields) := by
  have hvalue (field : String) (d : FieldDefinition) (hd : t.field? field = some d) :
      Entries.get? field fields = some ((Entries.get? field fields).getD .null) ∧
        ((Entries.get? field fields).getD .null).Fits d.type ∧
        ((Entries.get? field fields).getD .null).Sound types := by
    obtain ⟨v, hget, hfits, hsound⟩ := h field d hd
    rw [hget]
    exact ⟨rfl, hfits, hsound⟩
  exact .record (fun field => (Entries.get? field fields).getD .null) ht
    (fun field d hd => (hvalue field d hd).1) (fun field d hd => (hvalue field d hd).2.1)
    (fun field d hd => (hvalue field d hd).2.2)

mutual

/-- The value holds no record, and no decimal that is not a number. -/
def isPlain : Value → Bool
  | .decimal d => d ≠ .nan
  | .array items => arePlain items
  | .record _ _ => false
  | _ => true

/-- None of several values holds a record, or a decimal that is not a number. -/
def arePlain : List Value → Bool
  | [] => true
  | v :: vs => v.isPlain && arePlain vs

end

mutual

/-- A plain value is sound whatever record types there are. -/
theorem sound_of_isPlain (types : Registry) (v : Value) (h : v.isPlain = true) :
    v.Sound types := by
  match v with
  | .null => exact .null
  | .integer n => exact .integer n
  | .decimal d => exact .decimal (of_decide_eq_true h)
  | .boolean b => exact .boolean b
  | .string s => exact .string s
  | .array items => exact .array (sound_of_arePlain types items h)

theorem sound_of_arePlain (types : Registry) (vs : List Value) (h : arePlain vs = true) :
    ∀ v ∈ vs, v.Sound types := by
  match vs with
  | [] => exact nofun
  | w :: ws =>
    rw [arePlain, Bool.and_eq_true] at h
    have hw := sound_of_isPlain types w h.1
    have hws := sound_of_arePlain types ws h.2
    intro v hv
    rcases List.mem_cons.mp hv with rfl | hv
    · exact hw
    · exact hws v hv

end

mutual

/-- A value that arrives as JSON is plain. -/
theorem isPlain_ofJson? (j : Json) {v : Value} (h : ofJson? j = some v) : v.isPlain = true := by
  match j with
  | .null =>
    cases h
    rfl
  | .boolean b =>
    cases h
    rfl
  | .number numeral =>
    rw [ofJson?] at h
    obtain ⟨n, hn, rfl⟩ := Option.map_eq_some_iff.mp h
    cases n with
    | natural n =>
      rw [ofNumber]
      split
      · rfl
      · exact decide_eq_true (Decimal.ofInt_ne_nan _)
    | negative w => rfl
    | decimal d => exact decide_eq_true (Json.number?_ne_nan hn)
  | .string escaped =>
    rw [ofJson?] at h
    obtain ⟨cs, -, rfl⟩ := Option.map_eq_some_iff.mp h
    rfl
  | .array items =>
    rw [ofJson?] at h
    obtain ⟨vs, hvs, rfl⟩ := Option.map_eq_some_iff.mp h
    exact arePlain_ofItems? items hvs
  | .object members => cases h

theorem arePlain_ofItems? (js : List Json) {vs : List Value} (h : ofItems? js = some vs) :
    arePlain vs = true := by
  match js with
  | [] =>
    cases h
    rfl
  | j :: js =>
    rw [ofItems?] at h
    obtain ⟨v, hv, h⟩ := Option.bind_eq_some_iff.mp h
    obtain ⟨rest, hrest, h⟩ := Option.bind_eq_some_iff.mp h
    cases h
    rw [arePlain, isPlain_ofJson? j hv, arePlain_ofItems? js hrest]
    rfl

end

end Value

namespace SemanticType

variable {types : Registry}

theorem readDecimal?_ne_nan {cs : List Char} {d : Decimal} (h : Value.readDecimal? cs = some d) :
    d ≠ .nan := by
  unfold Value.readDecimal? at h
  split at h
  · next hspelled =>
    rcases Bool.or_eq_true_iff.mp hspelled with hdecimal | hinteger
    · exact Decimal.read?_ne_nan (Decimal.spelled_of_isDecimal hdecimal) h
    · exact Decimal.read?_ne_nan (Decimal.spelled_of_isInteger hinteger) h
  · cases h

/-- What a value is coerced to belongs to the type, and is the value itself or plain. -/
theorem coerce?_eq_some {type : SemanticType} {v w : Value} (h : type.coerce? v = some w) :
    w.Fits type ∧ (w = v ∨ w.isPlain = true) := by
  unfold coerce? at h
  split at h
  · cases h
    exact ⟨Value.null_fits _, .inr rfl⟩
  · cases h
    exact ⟨rfl, .inr rfl⟩
  · obtain ⟨n, -, rfl⟩ := Option.map_eq_some_iff.mp h
    exact ⟨rfl, .inr rfl⟩
  · cases h
    exact ⟨rfl, .inl rfl⟩
  · cases h
    exact ⟨rfl, .inr (decide_eq_true (Decimal.ofInt_ne_nan _))⟩
  · obtain ⟨d, hd, rfl⟩ := Option.map_eq_some_iff.mp h
    exact ⟨rfl, .inr (decide_eq_true (readDecimal?_ne_nan hd))⟩
  · cases h
    exact ⟨rfl, .inr rfl⟩
  · split at h
    · cases h
      exact ⟨rfl, .inr rfl⟩
    · split at h
      · cases h
        exact ⟨rfl, .inr rfl⟩
      · cases h
  · cases h
    exact ⟨rfl, .inr rfl⟩
  · cases h
    exact ⟨rfl, .inr rfl⟩
  · cases h
    exact ⟨rfl, .inr rfl⟩
  · cases h
    exact ⟨rfl, .inr rfl⟩
  · cases h
    exact ⟨rfl, .inl rfl⟩
  · split at h
    · next hname =>
      cases h
      exact ⟨by rw [Value.Fits, coerce?, if_pos hname], .inl rfl⟩
    · cases h
  · cases h

/-- What a sound value is coerced to is sound and belongs to the type. -/
theorem coerce?_sound {type : SemanticType} {v w : Value} (hv : v.Sound types)
    (h : type.coerce? v = some w) : w.Fits type ∧ w.Sound types := by
  obtain ⟨hfits, rfl | hplain⟩ := coerce?_eq_some h
  · exact ⟨hfits, hv⟩
  · exact ⟨hfits, Value.sound_of_isPlain types w hplain⟩

theorem coerce_eq_ok {type : SemanticType} {v w : Value} :
    type.coerce v = .ok w ↔ type.coerce? v = some w := by
  unfold coerce
  cases type.coerce? v with
  | none => exact ⟨nofun, nofun⟩
  | some u => simp

theorem coerce_sound {type : SemanticType} {v w : Value} (hv : v.Sound types)
    (h : type.coerce v = .ok w) : w.Fits type ∧ w.Sound types :=
  coerce?_sound hv (coerce_eq_ok.mp h)

end SemanticType

end Scriptorium

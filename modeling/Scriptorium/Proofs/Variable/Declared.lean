import Scriptorium.Proofs.Record.Inquiry
import Scriptorium.Variable.Table

/-!
# Declared variables and their types

A table declares a variable by giving it a type. Declarations are only ever
added, so a table keeps every declaration of an earlier one, and an operation
that updates a value changes no declaration.
-/

namespace Scriptorium.VariableTable

/-- The declared type of a variable. -/
def typeOf? (t : VariableTable) (name : String) : Option SemanticType :=
  (t.get? name).map (·.type)

/-- Every variable of the first table is declared in the second, with the same type. -/
def Within (t t' : VariableTable) : Prop :=
  ∀ name type, t.typeOf? name = some type → t'.typeOf? name = some type

theorem Within.refl (t : VariableTable) : Within t t := fun _ _ h => h

theorem Within.trans {t t' t'' : VariableTable} (h : Within t t') (k : Within t' t'') :
    Within t t'' := fun name type hn => k name type (h name type hn)

theorem namespace?_eq_none {t : VariableTable} {name : String} :
    t.namespace? name = none ↔ t.inputs.get? name = none ∧ t.locals.get? name = none := by
  unfold namespace? Dictionary.contains
  cases t.inputs.get? name <;> cases t.locals.get? name <;> simp

theorem get?_eq_none {t : VariableTable} {name : String} :
    t.get? name = none ↔ t.namespace? name = none := by
  rw [namespace?_eq_none]
  unfold get?
  cases t.inputs.get? name <;> cases t.locals.get? name <;> simp

/-- A name that is free in a table is free in every table that it keeps. -/
theorem Within.free {t t' : VariableTable} {name : String} (h : Within t t')
    (hfree : t'.namespace? name = none) : t.namespace? name = none := by
  rw [← get?_eq_none] at hfree ⊢
  cases hget : t.get? name with
  | none => rfl
  | some v =>
    have htype := h name v.type (by rw [typeOf?, hget, Option.map_some])
    rw [typeOf?, hfree] at htype
    cases htype

/-- The table with one more input. -/
def addInput (t : VariableTable) (name : String) (v : Variable) : VariableTable :=
  { t with inputs := t.inputs.insert name v }

/-- The table with one more local, or with a local replaced. -/
def setLocal (t : VariableTable) (name : String) (v : Variable) : VariableTable :=
  { t with locals := t.locals.insert name v }

theorem inputs_addInput (t : VariableTable) (name : String) (v : Variable) (other : String) :
    (t.addInput name v).inputs.get? other =
      if other = name then some v else t.inputs.get? other := by
  unfold addInput
  by_cases hother : other = name
  · simp [hother]
  · simp [hother, Dictionary.get?_insert_of_ne _ hother]

theorem locals_setLocal (t : VariableTable) (name : String) (v : Variable) (other : String) :
    (t.setLocal name v).locals.get? other =
      if other = name then some v else t.locals.get? other := by
  unfold setLocal
  by_cases hother : other = name
  · simp [hother]
  · simp [hother, Dictionary.get?_insert_of_ne _ hother]

theorem get?_addInput {t : VariableTable} {name : String} (h : t.namespace? name = none)
    (v : Variable) (other : String) :
    (t.addInput name v).get? other = if other = name then some v else t.get? other := by
  obtain ⟨-, hlocal⟩ := namespace?_eq_none.mp h
  unfold addInput get?
  by_cases hother : other = name
  · subst hother
    simp [hlocal]
  · simp [hother, Dictionary.get?_insert_of_ne _ hother]

theorem get?_setLocal (t : VariableTable) (name : String) (v : Variable) (other : String) :
    (t.setLocal name v).get? other = if other = name then some v else t.get? other := by
  unfold setLocal get?
  by_cases hother : other = name
  · subst hother
    simp
  · simp [hother, Dictionary.get?_insert_of_ne _ hother]

theorem within_addInput {t : VariableTable} {name : String} (h : t.namespace? name = none)
    (v : Variable) : Within t (t.addInput name v) := by
  intro other type hother
  have hne : other ≠ name := by
    rintro rfl
    rw [typeOf?, get?_eq_none.mpr h] at hother
    cases hother
  rw [typeOf?, get?_addInput h, if_neg hne]
  exact hother

theorem within_setLocal {t : VariableTable} {name : String} (h : t.namespace? name = none)
    (v : Variable) : Within t (t.setLocal name v) := by
  intro other type hother
  have hne : other ≠ name := by
    rintro rfl
    rw [typeOf?, get?_eq_none.mpr h] at hother
    cases hother
  rw [typeOf?, get?_setLocal, if_neg hne]
  exact hother

section Outcomes

variable {t t' : VariableTable} {name path : String} {type : SemanticType} {value : Value}

/-- An input that is bound is a new one, and takes the next queued value. -/
theorem bindInput_taken (h : t.bindInput name type = (.ok (), t')) :
    t.namespace? name = none ∧ ∃ raw pending v, t.pending = raw :: pending ∧
      type.coerce raw = .ok v ∧ t' = { t.addInput name ⟨type, v⟩ with pending } := by
  unfold bindInput at h
  split at h
  · cases h
  · next hfresh =>
    split at h
    · cases h
    · next raw pending hpending =>
      split at h
      · cases h
      · next v hcoerce =>
        cases h
        exact ⟨hfresh, raw, pending, v, hpending, hcoerce, rfl⟩

/-- An input that is bound is a new one. -/
theorem bindInput_eq_ok (h : t.bindInput name type = (.ok (), t')) :
    t.namespace? name = none ∧ ∃ v pending, t' = { t.addInput name ⟨type, v⟩ with pending } := by
  obtain ⟨hfresh, raw, pending, v, -, -, rfl⟩ := bindInput_taken h
  exact ⟨hfresh, v, pending, rfl⟩

/-- A local that is declared is a new one. -/
theorem declareLocal_eq_ok (h : t.declareLocal name type = (.ok (), t')) :
    t.namespace? name = none ∧ t' = t.setLocal name ⟨type, .null⟩ := by
  unfold declareLocal at h
  split at h
  · cases h
  · next hfresh =>
    cases h
    exact ⟨hfresh, rfl⟩

/-- An assignment changes the value of a local. -/
theorem assign_eq_ok (h : t.assign name value = (.ok (), t')) :
    ∃ v w, t.locals.get? name = some v ∧ t' = t.setLocal name { v with value := w } := by
  unfold assign at h
  split at h
  · cases h
  · next v hget =>
    split at h
    · cases h
    · next w _ =>
      cases h
      exact ⟨v, w, hget, rfl⟩

/-- An assignment along a path changes the value of a local, if anything, whatever lookups are
answered. -/
theorem always_assignPath (t : VariableTable) (path : String) (value : Value) :
    (t.assignPath path value).Always fun outcome => outcome.2 = t ∨ ∃ name v w,
      t.locals.get? name = some v ∧ outcome.2 = t.setLocal name { v with value := w } := by
  unfold assignPath
  split
  · next head _ =>
    rcases hassign : t.assign head value with ⟨cause | ⟨⟩, t'⟩
    · left
      unfold assign at hassign
      split at hassign
      · cases hassign
        rfl
      · split at hassign <;> cases hassign
        rfl
    · exact .inr ⟨head, assign_eq_ok hassign⟩
  · next head field rest _ =>
    split
    · exact .inl rfl
    · next v hget =>
      refine Inquiry.Always.bind (fun _ => ?_) _
      exact .inr ⟨head, v, _, hget, rfl⟩

end Outcomes

end Scriptorium.VariableTable

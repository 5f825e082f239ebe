import Scriptorium.Proofs.Variable.Declared

/-!
# Declarations made and declarations passed over

The table of a run has no more variables than were declared above the place
that the run has reached, and the types are the declared ones. A declaration
that is missing from it stands in a branch that the run has passed over.
-/

namespace Scriptorium.VariableTable

variable {passed : String → Prop} {declared declared' t : VariableTable} {name : String}

/-- The table has variables that are declared, of the declared types, and all of them but for names
that were passed over. -/
structure Agrees (passed : String → Prop) (declared t : VariableTable) : Prop where
  disjoint : ∀ name, declared.inputs.get? name = none ∨ declared.locals.get? name = none
  inputs : ∀ name v, t.inputs.get? name = some v →
    ∃ w, declared.inputs.get? name = some w ∧ w.type = v.type
  locals : ∀ name v, t.locals.get? name = some v →
    ∃ w, declared.locals.get? name = some w ∧ w.type = v.type
  missingInputs : ∀ name w, declared.inputs.get? name = some w → t.inputs.get? name = none →
    passed name
  missingLocals : ∀ name w, declared.locals.get? name = some w → t.locals.get? name = none →
    passed name

namespace Agrees

theorem start (passed : String → Prop) (inputs : List Value) :
    Agrees passed .empty (.withInputs inputs) where
  disjoint _ := .inl rfl
  inputs := nofun
  locals := nofun
  missingInputs := nofun
  missingLocals := nofun

/-- A name that is not declared is free in the table. -/
theorem fresh (h : Agrees passed declared t) (hfresh : declared.namespace? name = none) :
    t.namespace? name = none := by
  obtain ⟨hinputs, hlocals⟩ := namespace?_eq_none.mp hfresh
  rw [namespace?_eq_none]
  constructor
  · cases hget : t.inputs.get? name with
    | none => rfl
    | some v =>
      obtain ⟨w, hw, -⟩ := h.inputs name v hget
      rw [hinputs] at hw
      cases hw
  · cases hget : t.locals.get? name with
    | none => rfl
    | some v =>
      obtain ⟨w, hw, -⟩ := h.locals name v hget
      rw [hlocals] at hw
      cases hw

/-- A declared variable is found with its type, or its declaration was passed over. -/
theorem get? (h : Agrees passed declared t) {w : Variable} (hw : declared.get? name = some w) :
    (∃ v, t.get? name = some v ∧ v.type = w.type) ∨ t.get? name = none ∧ passed name := by
  unfold VariableTable.get? at hw ⊢
  cases hlocal : declared.locals.get? name with
  | some u =>
    rw [hlocal] at hw
    cases hw
    have hinput : t.inputs.get? name = none := by
      cases hget : t.inputs.get? name with
      | none => rfl
      | some v =>
        obtain ⟨u, hu, -⟩ := h.inputs name v hget
        rcases h.disjoint name with hnone | hnone
        · rw [hnone] at hu
          cases hu
        · rw [hnone] at hlocal
          cases hlocal
    cases hget : t.locals.get? name with
    | some v =>
      obtain ⟨u, hu, htype⟩ := h.locals name v hget
      rw [hlocal] at hu
      cases hu
      exact .inl ⟨v, rfl, htype.symm⟩
    | none =>
      rw [hinput]
      exact .inr ⟨rfl, h.missingLocals name _ hlocal hget⟩
  | none =>
    rw [hlocal, Option.none_or] at hw
    have hnone : t.locals.get? name = none := by
      cases hget : t.locals.get? name with
      | none => rfl
      | some v =>
        obtain ⟨u, hu, -⟩ := h.locals name v hget
        rw [hlocal] at hu
        cases hu
    rw [hnone, Option.none_or]
    cases hget : t.inputs.get? name with
    | some v =>
      obtain ⟨u, hu, htype⟩ := h.inputs name v hget
      rw [hw] at hu
      cases hu
      exact .inl ⟨v, rfl, htype.symm⟩
    | none => exact .inr ⟨rfl, h.missingInputs name _ hw hget⟩

/-- A variable of the table has its declared type. -/
theorem typeOf?_eq (h : Agrees passed declared t) (hname : t.get? name ≠ none) :
    declared.typeOf? name = t.typeOf? name := by
  cases hw : declared.get? name with
  | none => exact absurd (get?_eq_none.mpr (h.fresh (get?_eq_none.mp hw))) hname
  | some w =>
    rcases h.get? hw with ⟨v, hv, htype⟩ | ⟨hnone, -⟩
    · simp only [typeOf?, hw, hv, Option.map_some, htype]
    · exact absurd hnone hname

/-- Where nothing was passed over, the table has every declaration. -/
theorem within (h : Agrees passed declared t) (hpassed : ∀ name, ¬ passed name) :
    declared.Within t := by
  intro name type hname
  obtain ⟨w, hw, rfl⟩ := Option.map_eq_some_iff.mp hname
  rcases h.get? hw with ⟨v, hv, htype⟩ | ⟨-, hover⟩
  · simp only [typeOf?, hv, Option.map_some, htype]
  · exact absurd hover (hpassed name)

theorem addInput (h : Agrees passed declared t) (hfresh : declared.namespace? name = none)
    {v w : Variable} (htype : w.type = v.type) :
    Agrees passed (declared.addInput name w) (t.addInput name v) where
  disjoint other := by
    by_cases hother : other = name
    · subst hother
      exact .inr (namespace?_eq_none.mp hfresh).2
    · rw [VariableTable.addInput, Dictionary.get?_insert_of_ne _ hother]
      exact h.disjoint other
  inputs other u hu := by
    unfold VariableTable.addInput at hu ⊢
    by_cases hother : other = name
    · subst hother
      rw [Dictionary.get?_insert_self] at hu ⊢
      cases hu
      exact ⟨w, rfl, htype⟩
    · rw [Dictionary.get?_insert_of_ne _ hother] at hu ⊢
      exact h.inputs other u hu
  locals := h.locals
  missingInputs other u hu hnone := by
    unfold VariableTable.addInput at hu hnone
    by_cases hother : other = name
    · subst hother
      rw [Dictionary.get?_insert_self] at hnone
      cases hnone
    · rw [Dictionary.get?_insert_of_ne _ hother] at hu hnone
      exact h.missingInputs other u hu hnone
  missingLocals := h.missingLocals

theorem addLocal (h : Agrees passed declared t) (hfresh : declared.namespace? name = none)
    {v w : Variable} (htype : w.type = v.type) :
    Agrees passed (declared.setLocal name w) (t.setLocal name v) where
  disjoint other := by
    by_cases hother : other = name
    · subst hother
      exact .inl (namespace?_eq_none.mp hfresh).1
    · rw [VariableTable.setLocal, Dictionary.get?_insert_of_ne _ hother]
      exact h.disjoint other
  inputs := h.inputs
  locals other u hu := by
    unfold VariableTable.setLocal at hu ⊢
    by_cases hother : other = name
    · subst hother
      rw [Dictionary.get?_insert_self] at hu ⊢
      cases hu
      exact ⟨w, rfl, htype⟩
    · rw [Dictionary.get?_insert_of_ne _ hother] at hu ⊢
      exact h.locals other u hu
  missingInputs := h.missingInputs
  missingLocals other u hu hnone := by
    unfold VariableTable.setLocal at hu hnone
    by_cases hother : other = name
    · subst hother
      rw [Dictionary.get?_insert_self] at hnone
      cases hnone
    · rw [Dictionary.get?_insert_of_ne _ hother] at hu hnone
      exact h.missingLocals other u hu hnone

/-- What is queued for inputs has nothing to do with declarations. -/
theorem pending (h : Agrees passed declared t) (pending : List Value) :
    Agrees passed declared { t with pending } :=
  ⟨h.disjoint, h.inputs, h.locals, h.missingInputs, h.missingLocals⟩

/-- An update changes no declaration. -/
theorem update (h : Agrees passed declared t) {v v' : Variable} (hget : t.locals.get? name = some v)
    (htype : v'.type = v.type) : Agrees passed declared (t.setLocal name v') where
  disjoint := h.disjoint
  inputs := h.inputs
  locals other u hu := by
    unfold VariableTable.setLocal at hu
    by_cases hother : other = name
    · subst hother
      rw [Dictionary.get?_insert_self] at hu
      cases hu
      obtain ⟨w, hw, hsame⟩ := h.locals other v hget
      exact ⟨w, hw, hsame.trans htype.symm⟩
    · rw [Dictionary.get?_insert_of_ne _ hother] at hu
      exact h.locals other u hu
  missingInputs := h.missingInputs
  missingLocals other u hu hnone := by
    unfold VariableTable.setLocal at hnone
    by_cases hother : other = name
    · subst hother
      rw [Dictionary.get?_insert_self] at hnone
      cases hnone
    · rw [Dictionary.get?_insert_of_ne _ hother] at hnone
      exact h.missingLocals other u hu hnone

end Agrees

/-- The second table declares what the first one does, and besides only names of this kind, each
of them once. -/
def Extends (new : String → Prop) (declared declared' : VariableTable) : Prop :=
  ∀ name, declared'.inputs.get? name = declared.inputs.get? name ∧
      declared'.locals.get? name = declared.locals.get? name ∨
    declared.namespace? name = none ∧ new name ∧
      (declared'.inputs.get? name = none ∨ declared'.locals.get? name = none)

namespace Extends

variable {new new' : String → Prop} {declared'' : VariableTable}

theorem refl (new : String → Prop) (declared : VariableTable) : Extends new declared declared :=
  fun _ => .inl ⟨rfl, rfl⟩

theorem mono (h : Extends new declared declared') (k : ∀ name, new name → new' name) :
    Extends new' declared declared' := by
  intro name
  rcases h name with hsame | ⟨hfresh, hnew, hdisjoint⟩
  · exact .inl hsame
  · exact .inr ⟨hfresh, k name hnew, hdisjoint⟩

theorem trans (h : Extends new declared declared') (k : Extends new declared' declared'') :
    Extends new declared declared'' := by
  intro name
  rcases k name with ⟨hinputs, hlocals⟩ | ⟨hfresh, hnew, hdisjoint⟩
  · rw [hinputs, hlocals]
    exact h name
  · rcases h name with ⟨hinputs, hlocals⟩ | ⟨hfresh', -, -⟩
    · rw [namespace?_eq_none, hinputs, hlocals] at hfresh
      exact .inr ⟨namespace?_eq_none.mpr hfresh, hnew, hdisjoint⟩
    · exact .inr ⟨hfresh', hnew, hdisjoint⟩

theorem addInput (hfresh : declared.namespace? name = none) (hnew : new name) (w : Variable) :
    Extends new declared (declared.addInput name w) := by
  intro other
  by_cases hother : other = name
  · subst hother
    exact .inr ⟨hfresh, hnew, .inr (namespace?_eq_none.mp hfresh).2⟩
  · exact .inl ⟨Dictionary.get?_insert_of_ne _ hother _, rfl⟩

theorem setLocal (hfresh : declared.namespace? name = none) (hnew : new name) (w : Variable) :
    Extends new declared (declared.setLocal name w) := by
  intro other
  by_cases hother : other = name
  · subst hother
    exact .inr ⟨hfresh, hnew, .inl (namespace?_eq_none.mp hfresh).1⟩
  · exact .inl ⟨rfl, Dictionary.get?_insert_of_ne _ hother _⟩

end Extends

/-- Declarations that a run has passed over may be added. -/
theorem Agrees.pass (h : Agrees passed declared t) (k : Extends passed declared declared') :
    Agrees passed declared' t where
  disjoint name := by
    rcases k name with ⟨hinputs, hlocals⟩ | ⟨-, -, hdisjoint⟩
    · rw [hinputs, hlocals]
      exact h.disjoint name
    · exact hdisjoint
  inputs name v hv := by
    obtain ⟨w, hw, htype⟩ := h.inputs name v hv
    rcases k name with ⟨hinputs, -⟩ | ⟨hfresh, -, -⟩
    · exact ⟨w, hinputs.trans hw, htype⟩
    · rw [(namespace?_eq_none.mp hfresh).1] at hw
      cases hw
  locals name v hv := by
    obtain ⟨w, hw, htype⟩ := h.locals name v hv
    rcases k name with ⟨-, hlocals⟩ | ⟨hfresh, -, -⟩
    · exact ⟨w, hlocals.trans hw, htype⟩
    · rw [(namespace?_eq_none.mp hfresh).2] at hw
      cases hw
  missingInputs name w hw hnone := by
    rcases k name with ⟨hinputs, -⟩ | ⟨-, hpassed, -⟩
    · exact h.missingInputs name w (hinputs.symm.trans hw) hnone
    · exact hpassed
  missingLocals name w hw hnone := by
    rcases k name with ⟨-, hlocals⟩ | ⟨-, hpassed, -⟩
    · exact h.missingLocals name w (hlocals.symm.trans hw) hnone
    · exact hpassed

end Scriptorium.VariableTable

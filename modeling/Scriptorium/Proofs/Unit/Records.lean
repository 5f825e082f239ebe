import Scriptorium.Proofs.Script.Matches
import Scriptorium.Proofs.Unit.Contents
import Scriptorium.Proofs.Unit.Payload

/-!
# Compiled record types

A field of a record type that compiles is of a type that is not one of records,
of a registered record type, or of the record type itself.
-/

namespace Scriptorium.Compile

variable {types : Registry} {name : QualifiedName}

/-- What the compiler has found out about the type of a field. -/
def Grounded (types : Registry) (name : QualifiedName) (type : SemanticType) : Prop :=
  (∀ n ∈ type.names, n.Plain) ∧ (type.Known types ∨ type = .record name)

theorem Grounded.readable {type : SemanticType} (h : Grounded types name type) :
    type.Readable := by
  cases type with
  | record other => exact (h.1 other List.mem_cons_self).readable
  | _ => exact trivial

theorem fieldType_eq_ok {typeName : String} {type : SemanticType}
    (h : (fieldType name typeName).run types = .ok (some type)) : Grounded types name type := by
  unfold fieldType at h
  split at h
  · next record hrecord =>
    have hplain : ∀ n ∈ (SemanticType.record record).names, n.Plain := by
      rw [← hrecord]
      exact SemanticType.plain_ofTypeName typeName
    split at h
    · next hself =>
      simp only [Inquiry.run_pure, Except.ok.injEq, Option.some.injEq] at h
      subst h
      exact ⟨hplain, .inr (by rw [hself])⟩
    · simp only [Inquiry.run_bind, Inquiry.run_lookup] at h
      cases hfound : types record with
      | error cause => simp [hfound] at h
      | ok found =>
        simp only [hfound, Inquiry.run_pure, Except.ok.injEq] at h
        obtain ⟨t, rfl, rfl⟩ := Option.map_eq_some_iff.mp h
        exact ⟨hplain, .inl ⟨t, hfound⟩⟩
  · next hother =>
    simp only [Inquiry.run_pure, Except.ok.injEq, Option.some.injEq] at h
    subst h
    refine ⟨SemanticType.plain_ofTypeName typeName, .inl ?_⟩
    cases htype : SemanticType.ofTypeName typeName with
    | record record => exact absurd htype (hother record)
    | _ => exact trivial

theorem field_eq_ok {before : List FieldDefinition} {fragment : List Char} {f : FieldDefinition}
    (h : (field name before fragment).run types = .ok f) : Grounded types name f.type := by
  unfold field at h
  split at h
  · next typeName fieldName hwords =>
    split at h
    · cases h
    · simp only [Inquiry.run_bind] at h
      cases htype : (fieldType name (String.ofList typeName)).run types with
      | error cause => simp [htype] at h
      | ok found =>
        cases found with
        | none => simp [htype] at h
        | some type =>
          simp only [htype] at h
          split at h
          · cases h
          · simp only [Inquiry.run_pure, Except.ok.injEq] at h
            subst h
            exact fieldType_eq_ok htype
  · cases h

theorem fields_eq_ok {before defined : List FieldDefinition} {fragments : List (List Char)}
    (h : (fields name before fragments).run types = .ok defined)
    (hbefore : ∀ f ∈ before, Grounded types name f.type) :
    ∀ f ∈ defined, Grounded types name f.type := by
  induction fragments generalizing before with
  | nil =>
    cases h
    exact hbefore
  | cons fragment rest ih =>
    simp only [fields, Inquiry.run_bind] at h
    cases hfield : (field name before fragment).run types with
    | error cause => simp [hfield] at h
    | ok f =>
      simp only [hfield] at h
      refine ih h fun g hg => ?_
      rcases List.mem_append.mp hg with hg | hg
      · exact hbefore g hg
      · obtain rfl := List.mem_singleton.mp hg
        exact field_eq_ok hfield

/-- The unit of a record type that compiles. -/
theorem recordType_eq_ok {spec : String} {u : CompiledUnit}
    (h : (Compile.recordType name spec).run types = .ok u) :
    ∃ defined, (fields name [] (fragments spec)).run types = .ok defined ∧
      u = .ofBody name (.record ⟨name, defined⟩) (some spec) none := by
  unfold Compile.recordType at h
  cases hname : checkName name with
  | error cause => simp [hname] at h
  | ok =>
    simp only [hname, Inquiry.run_bind] at h
    cases hfields : (fields name [] (fragments spec)).run types with
    | error cause => simp [hfields] at h
    | ok defined =>
      simp only [hfields, Inquiry.run_pure, Except.ok.injEq] at h
      exact ⟨defined, rfl, h.symm⟩

end Scriptorium.Compile

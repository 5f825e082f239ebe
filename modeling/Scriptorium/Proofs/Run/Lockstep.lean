import Scriptorium.Proofs.Run.Course
import Scriptorium.Run.Report

/-!
# Runs in lockstep

Two engines are run side by side on the same program. As long as both answer
every evaluation that the run comes to and every lookup of a record type alike,
the two runs come to the same states and end alike.
-/

namespace Scriptorium

mutual

/-- The expressions that an instruction refers to. -/
def Instruction.refs : Instruction → List ExprRef
  | .declareInput _ _ => []
  | .declareLocal _ _ init => init.toList
  | .setLocal _ ref => [ref]
  | .branch c thenBranch elseBranch =>
    c.left :: c.right :: (Instruction.allRefs thenBranch ++ Instruction.allRefs elseBranch)

/-- The expressions that several instructions refer to. -/
def Instruction.allRefs : List Instruction → List ExprRef
  | [] => []
  | i :: rest => i.refs ++ Instruction.allRefs rest

end

/-- What an instruction evaluates it refers to. -/
theorem Instruction.operands_subset_refs (i : Instruction) : i.operands ⊆ i.refs := by
  cases i with
  | branch c thenBranch elseBranch => simp [operands, refs]
  | _ => exact fun _ href => href

theorem Instruction.allRefs_append (is js : List Instruction) :
    allRefs (is ++ js) = allRefs is ++ allRefs js := by
  induction is with
  | nil => rfl
  | cons i rest ih => simp only [List.cons_append, allRefs, ih, List.append_assoc]

namespace Engine

variable {σ τ : Type} {α : Type} {R : Engine σ → Engine τ → Prop}

/-- Two operations yield the same and leave the engines related. -/
def Agree (R : Engine σ → Engine τ → Prop) (x : α × Engine σ) (y : α × Engine τ) : Prop :=
  x.1 = y.1 ∧ R x.2 y.2

theorem Agree.split {x : α × Engine σ} {y : α × Engine τ} (h : Agree R x y) :
    ∃ a e e', x = (a, e) ∧ y = (a, e') ∧ R e e' :=
  ⟨x.1, x.2, y.2, rfl, Prod.ext h.1.symm rfl, h.2⟩

theorem Agree.resume {rest : List Instruction} {x : Except ExecutionError VariableTable × Engine σ}
    {y : Except ExecutionError VariableTable × Engine τ} (h : Agree R x y) :
    Agree R (Engine.resume rest x) (Engine.resume rest y) := by
  obtain ⟨outcome, e, e', rfl, rfl, hr⟩ := h.split
  cases outcome <;> exact ⟨rfl, hr⟩

/-- The relation between two engines is kept while they evaluate such expressions over such
variables alike and find the same record types. -/
structure Lockstep [CodeRepository σ] [CodeRepository τ] (At : ExprRef → VariableTable → Prop)
    (R : Engine σ → Engine τ → Prop) : Prop where
  evaluate {e : Engine σ} {e' : Engine τ} (h : R e e') {ref : ExprRef} {t : VariableTable}
    (hat : At ref t) : Agree R (e.evaluate ref t) (e'.evaluate ref t)
  recordType {e : Engine σ} {e' : Engine τ} (h : R e e') (name : QualifiedName) :
    Agree R (recordType name e) (recordType name e')

variable [CodeRepository σ] [CodeRepository τ] {At : ExprRef → VariableTable → Prop}

namespace Lockstep

theorem inquire (k : Lockstep At R) {e : Engine σ} {e' : Engine τ} (h : R e e')
    (x : Inquiry α) : Agree R (e.inquire x) (e'.inquire x) := by
  unfold Engine.inquire
  induction x generalizing e e' with
  | answer a => exact ⟨rfl, h⟩
  | ask name next ih =>
    obtain ⟨hsame, hnext⟩ := k.recordType h name
    simp only [Inquiry.runWith, ← hsame]
    exact ih _ hnext

theorem test (k : Lockstep At R) {e : Engine σ} {e' : Engine τ} (h : R e e') {c : Condition}
    {t : VariableTable} (hleft : At c.left t) (hright : At c.right t) :
    Agree R (e.test c t) (e'.test c t) := by
  obtain ⟨left, e₁, e₁', hl, hl', h₁⟩ := (k.evaluate h hleft).split
  unfold Engine.test
  simp only [hl, hl']
  cases left with
  | error cause => exact ⟨rfl, h₁⟩
  | ok left =>
    obtain ⟨right, e₂, e₂', hr, hr', h₂⟩ := (k.evaluate h₁ hright).split
    simp only [hr, hr']
    cases right <;> exact ⟨rfl, h₂⟩

theorem declareLocal (k : Lockstep At R) {e : Engine σ} {e' : Engine τ} (h : R e e')
    (name : String) (type : SemanticType) {init : Option ExprRef} {t : VariableTable}
    (hinit : ∀ ref ∈ init, At ref t) :
    Agree R (e.declareLocal name type init t) (e'.declareLocal name type init t) := by
  cases init with
  | none => exact ⟨rfl, h⟩
  | some ref =>
    obtain ⟨value, e₁, e₁', hv, hv', h₁⟩ := (k.evaluate h (hinit ref rfl)).split
    simp only [Engine.declareLocal, hv, hv']
    cases value with
    | error cause => exact ⟨rfl, h₁⟩
    | ok value =>
      dsimp only
      cases onVariables (t.declareLocal name type) <;> exact ⟨rfl, h₁⟩

theorem setLocal (k : Lockstep At R) {e : Engine σ} {e' : Engine τ} (h : R e e')
    (target : String) {ref : ExprRef} {t : VariableTable} (href : At ref t) :
    Agree R (e.setLocal target ref t) (e'.setLocal target ref t) := by
  obtain ⟨value, e₁, e₁', hv, hv', h₁⟩ := (k.evaluate h href).split
  simp only [Engine.setLocal, hv, hv']
  cases value with
  | error cause => exact ⟨rfl, h₁⟩
  | ok value =>
    obtain ⟨hsame, hnext⟩ := k.inquire h₁ (t.assignPath target value)
    exact ⟨congrArg onVariables hsame, hnext⟩

/-- Two engines carry out an instruction alike. -/
theorem advance (k : Lockstep At R) {e : Engine σ} {e' : Engine τ} (h : R e e')
    {i : Instruction} {t : VariableTable} (hoperands : ∀ ref ∈ i.operands, At ref t)
    (rest : List Instruction) : Agree R (e.advance i rest t) (e'.advance i rest t) := by
  cases i with
  | declareInput name type => exact Agree.resume ⟨rfl, h⟩
  | declareLocal name type init =>
    have hinit : ∀ ref ∈ init, At ref t :=
      fun ref href => hoperands ref (Option.mem_toList.mpr href)
    exact Agree.resume (k.declareLocal h name type hinit)
  | setLocal target ref =>
    exact Agree.resume (k.setLocal h target (hoperands ref List.mem_cons_self))
  | branch c thenBranch elseBranch =>
    have hleft : At c.left t := hoperands c.left (by simp [Instruction.operands])
    have hright : At c.right t := hoperands c.right (by simp [Instruction.operands])
    obtain ⟨chosen, e₁, e₁', hl, hr, h₁⟩ := (k.test h hleft hright).split
    simp only [Engine.advance, hl, hr]
    rcases chosen with cause | _ | _ <;> exact ⟨rfl, h₁⟩

end Lockstep

/-- The expressions that a run evaluates from this state on are such ones, over the variables that
it then has. -/
def Ahead (At : ExprRef → VariableTable → Prop) (e : Engine σ) (p : Progress) : Prop :=
  ∀ e' i rest t, Reaches e p e' ⟨i :: rest, t⟩ → ∀ ref ∈ i.operands, At ref t

/-- What remains after an instruction refers to nothing new. -/
theorem refs_remaining_advance {e e' : Engine σ} {i : Instruction} {rest : List Instruction}
    {t : VariableTable} {p : Progress} (h : e.advance i rest t = (.ok p, e')) :
    ∀ ref ∈ Instruction.allRefs p.remaining, ref ∈ Instruction.allRefs (i :: rest) := by
  intro ref href
  simp only [Instruction.allRefs, List.mem_append]
  cases i with
  | branch c thenBranch elseBranch =>
    simp only [advance] at h
    simp only [Instruction.refs, List.mem_cons, List.mem_append]
    split at h
    · cases h
    · cases h
      rcases List.mem_append.mp (Instruction.allRefs_append .. ▸ href) with href | href
      · exact .inl (.inr (.inr (.inl href)))
      · exact .inr href
    · cases h
      rcases List.mem_append.mp (Instruction.allRefs_append .. ▸ href) with href | href
      · exact .inl (.inr (.inr (.inr href)))
      · exact .inr href
  | declareInput name type =>
    rw [remaining_resume h] at href
    exact .inr href
  | declareLocal name type init =>
    rw [remaining_resume h] at href
    exact .inr href
  | setLocal target value =>
    rw [remaining_resume h] at href
    exact .inr href

/-- A run refers to nothing but what its program refers to. -/
theorem Reaches.refs {e e' : Engine σ} {p p' : Progress} (h : Reaches e p e' p') :
    ∀ ref ∈ Instruction.allRefs p'.remaining, ref ∈ Instruction.allRefs p.remaining := by
  induction h with
  | refl => exact fun _ href => href
  | advance hadvance _ ih => exact fun ref href => refs_remaining_advance hadvance ref (ih ref href)

theorem ahead_refs (e : Engine σ) (p : Progress) :
    e.Ahead (fun ref _ => ref ∈ Instruction.allRefs p.remaining) p :=
  fun _ i _ _ hrun ref href =>
    hrun.refs ref (List.mem_append_left _ (i.operands_subset_refs href))

namespace Lockstep

variable {e e₁ : Engine σ} {e' : Engine τ} {p q : Progress}

/-- What one run comes to the other one comes to as well. -/
theorem reaches (k : Lockstep At R) (h : R e e') (hahead : e.Ahead At p)
    (hrun : Reaches e p e₁ q) : ∃ e₁', Reaches e' p e₁' q ∧ R e₁ e₁' := by
  induction hrun generalizing e' with
  | refl => exact ⟨e', .refl _ _, h⟩
  | advance hadvance _ ih =>
    obtain ⟨outcome, s, s', hleft, hright, hs⟩ :=
      (k.advance h (hahead _ _ _ _ (.refl _ _)) _).split
    rw [hadvance] at hleft
    cases hleft
    obtain ⟨e₁', hrun', h₁⟩ := ih hs fun _ _ _ _ hnext => hahead _ _ _ _ (.advance hadvance hnext)
    exact ⟨e₁', .advance hright hrun', h₁⟩

/-- Two runs of one program end alike. -/
theorem finish (k : Lockstep At R) (h : R e e') (hahead : e.Ahead At p) :
    Agree R (e.finish p) (e'.finish p) := by
  -- The induction is on the number of instructions that remain.
  induction hsize : Instruction.sizes p.remaining using Nat.strongRecOn generalizing e e' p with
  | ind n ih =>
    obtain ⟨remaining, t⟩ := p
    cases remaining with
    | nil =>
      rw [finish_nil, finish_nil]
      exact ⟨rfl, h⟩
    | cons i rest =>
      obtain ⟨outcome, s, s', hleft, hright, hs⟩ :=
        (k.advance h (hahead _ _ _ _ (.refl _ _)) rest).split
      rw [finish_cons, finish_cons, hleft, hright]
      cases outcome with
      | error cause => exact ⟨rfl, hs⟩
      | ok next =>
        have hless := sizes_remaining_advance hleft
        exact ih _ (hsize ▸ hless) hs
          (fun _ _ _ _ hnext => hahead _ _ _ _ (.advance hleft hnext)) rfl

end Lockstep

section Keeping

variable {P : Engine σ → Prop}
  (hevaluate : ∀ (e : Engine σ) (ref : ExprRef) (t : VariableTable), P e →
    P (e.evaluate ref t).2)
  (hrecordType : ∀ (e : Engine σ) (name : QualifiedName), P e → P (recordType name e).2)

include hevaluate hrecordType

/-- An engine is in lockstep with itself, and keeps what evaluations and lookups keep. -/
theorem lockstep_keeps :
    Lockstep (fun _ _ => True) fun s s' : Engine σ => s = s' ∧ P s where
  evaluate {e e'} h ref t _ := by
    obtain ⟨rfl, h⟩ := h
    exact ⟨rfl, rfl, hevaluate e ref t h⟩
  recordType {e e'} h name := by
    obtain ⟨rfl, h⟩ := h
    exact ⟨rfl, rfl, hrecordType e name h⟩

/-- What evaluations and lookups of record types keep is kept by a run. -/
theorem finish_keeps {e : Engine σ} (h : P e) (p : Progress) : P (e.finish p).2 :=
  ((lockstep_keeps hevaluate hrecordType).finish ⟨rfl, h⟩ fun _ _ _ _ _ _ _ => trivial).2.2

/-- What evaluations and lookups of record types keep is kept from the moment when the script is
there. -/
theorem execute_keeps {e : Engine σ} {name : QualifiedName} {fallback : Option Fallback}
    (h : P (e.getExecutable name fallback).2) (values : List Value) :
    P (e.execute name fallback values).2 := by
  unfold execute
  split
  · next hget => rwa [hget] at h
  · next hget =>
    rw [hget] at h
    split
    · exact h
    · exact finish_keeps hevaluate hrecordType h _

/-- What evaluations and lookups of record types keep is kept from one state of a run to another. -/
theorem Reaches.keeps {e e' : Engine σ} {p p' : Progress} (h : P e) (hrun : Reaches e p e' p') :
    P e' := by
  obtain ⟨_, -, rfl, h'⟩ := (lockstep_keeps hevaluate hrecordType).reaches ⟨rfl, h⟩
    (fun _ _ _ _ _ _ _ => trivial) hrun
  exact h'

end Keeping

end Engine

end Scriptorium

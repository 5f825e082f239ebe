import Scriptorium.Proofs.Variable.Declared
import Scriptorium.Run.Progress

/-!
# The states that a run comes to

A run goes from one state between instructions to the next by carrying out the
first instruction. How it ends is decided in every state that it comes to. The
side of a branch that a condition does not choose is passed over, with all the
declarations in it.
-/

namespace Scriptorium

mutual

/-- The instruction declares a variable of this name, if only inside a branch. -/
def Instruction.Declares (name : String) : Instruction → Prop
  | .declareInput declared _ => declared = name
  | .declareLocal declared _ _ => declared = name
  | .setLocal _ _ => False
  | .branch _ thenBranch elseBranch =>
    Instruction.DeclaresAny name thenBranch ∨ Instruction.DeclaresAny name elseBranch

/-- One of the instructions declares a variable of this name. -/
def Instruction.DeclaresAny (name : String) : List Instruction → Prop
  | [] => False
  | i :: rest => i.Declares name ∨ Instruction.DeclaresAny name rest

end

/-- The instruction is a branch, and a variable of this name is declared inside it. -/
def Instruction.DeclaresInBranch (name : String) : Instruction → Prop
  | .branch _ thenBranch elseBranch =>
    Instruction.DeclaresAny name thenBranch ∨ Instruction.DeclaresAny name elseBranch
  | _ => False

theorem Instruction.declaresAny_of_mem {name : String} {is : List Instruction} {i : Instruction}
    (hi : i ∈ is) (h : i.DeclaresInBranch name) : Instruction.DeclaresAny name is := by
  induction hi with
  | head =>
    left
    cases i with
    | branch => exact h
    | _ => exact h.elim
  | tail _ _ ih => exact .inr ih

/-- The expressions that an instruction evaluates before the run goes on. -/
def Instruction.operands : Instruction → List ExprRef
  | .declareInput _ _ => []
  | .declareLocal _ _ init => init.toList
  | .setLocal _ ref => [ref]
  | .branch c _ _ => [c.left, c.right]

namespace Engine

variable {σ : Type}

theorem resume_ok {rest : List Instruction} {e : Engine σ} {p : Progress}
    {outcome : Except ExecutionError VariableTable × Engine σ}
    (h : resume rest outcome = (.ok p, e)) : ∃ t, outcome = (.ok t, e) ∧ p = ⟨rest, t⟩ := by
  obtain ⟨_ | t, _⟩ := outcome <;> cases h
  exact ⟨t, rfl, rfl⟩

theorem onVariables_ok {outcome : TableOutcome} {t : VariableTable}
    (h : onVariables outcome = .ok t) : outcome = (.ok (), t) := by
  obtain ⟨_ | _, _⟩ := outcome <;> cases h
  rfl

variable [CodeRepository σ]

/-- A declaration with an initializer that succeeds adds the local and gives it a value. -/
theorem initLocal_ok {e e' : Engine σ} {name : String} {type : SemanticType} {ref : ExprRef}
    {t t' : VariableTable} (h : e.declareLocal name type (some ref) t = (.ok t', e')) : ∃ v w,
      (t.setLocal name ⟨type, .null⟩).locals.get? name = some v ∧
      t' = (t.setLocal name ⟨type, .null⟩).setLocal name { v with value := w } := by
  simp only [declareLocal] at h
  split at h
  · cases h
  · split at h
    · cases h
    · next t₁ hlocal =>
      obtain ⟨-, rfl⟩ := VariableTable.declareLocal_eq_ok (onVariables_ok hlocal)
      exact VariableTable.assign_eq_ok (onVariables_ok (congrArg Prod.fst h))

/-- An assignment that succeeds changes the value of a local, if anything. -/
theorem setLocal_ok {e e' : Engine σ} {target : String} {ref : ExprRef} {t t' : VariableTable}
    (h : e.setLocal target ref t = (.ok t', e')) : t' = t ∨ ∃ name v w,
      t.locals.get? name = some v ∧ t' = t.setLocal name { v with value := w } := by
  simp only [setLocal] at h
  split at h
  · cases h
  · next value e₁ hvalue =>
    have hkept := (t.always_assignPath target value).runWith recordType e₁
    have houtcome := onVariables_ok (congrArg Prod.fst h)
    unfold inquire at houtcome
    rwa [houtcome] at hkept

theorem finish_nil (e : Engine σ) (t : VariableTable) : e.finish ⟨[], t⟩ = (.ok t, e) := by
  rw [finish]

theorem finish_cons (e : Engine σ) (i : Instruction) (rest : List Instruction) (t : VariableTable) :
    e.finish ⟨i :: rest, t⟩ =
      match e.advance i rest t with
      | (.error cause, e) => (.error cause, e)
      | (.ok next, e) => e.finish next := by
  rw [finish]
  split <;> next h => simp only [h]

/-- A run in the first state comes to the second one. -/
inductive Reaches : Engine σ → Progress → Engine σ → Progress → Prop
  | refl (e : Engine σ) (p : Progress) : Reaches e p e p
  | advance {e e' e'' : Engine σ} {i : Instruction} {rest : List Instruction} {t : VariableTable}
    {next p : Progress} (h : e.advance i rest t = (.ok next, e')) (k : Reaches e' next e'' p) :
    Reaches e ⟨i :: rest, t⟩ e'' p

namespace Reaches

variable {e e' e'' : Engine σ} {p p' p'' : Progress}

theorem trans (h : Reaches e p e' p') (k : Reaches e' p' e'' p'') : Reaches e p e'' p'' := by
  induction h with
  | refl => exact k
  | advance hadvance _ ih => exact .advance hadvance (ih k)

/-- One more instruction is carried out. -/
theorem step {i : Instruction} {rest : List Instruction} {t : VariableTable}
    (h : Reaches e p e' ⟨i :: rest, t⟩) (k : e'.advance i rest t = (.ok p'', e'')) :
    Reaches e p e'' p'' := h.trans (.advance k (.refl _ _))

/-- A run ends as it does from every state that it comes to. -/
theorem finish_eq (h : Reaches e p e' p') : e.finish p = e'.finish p' := by
  induction h with
  | refl => rfl
  | advance hadvance _ ih =>
    rw [finish_cons, hadvance]
    exact ih

end Reaches

/-- A run in the first state comes to the second one. Between two instructions the engine may be
changed in any way. -/
inductive Comes (σ : Type) [CodeRepository σ] : Progress → Progress → Prop
  | refl (p : Progress) : Comes σ p p
  | advance {e e' : Engine σ} {i : Instruction} {rest : List Instruction} {t : VariableTable}
    {next p : Progress} (h : e.advance i rest t = (.ok next, e')) (k : Comes σ next p) :
    Comes σ ⟨i :: rest, t⟩ p

/-- The run of one engine is such a run. -/
theorem Reaches.comes {e e' : Engine σ} {p q : Progress} (h : Reaches e p e' q) : Comes σ p q := by
  induction h with
  | refl => exact .refl _
  | advance hadvance _ ih => exact .advance hadvance ih

/-- The run that begins in this state comes to a branch and does not take the side on which a
variable of this name is declared. -/
inductive PassedOver (e : Engine σ) (start : Progress) (name : String) : Prop
  | thenBranch {e' e'' : Engine σ} {c : Condition} {thenBranch elseBranch rest : List Instruction}
    {t : VariableTable} (hreach : Reaches e start e' ⟨.branch c thenBranch elseBranch :: rest, t⟩)
    (htest : e'.test c t = (.ok false, e''))
    (hdeclares : Instruction.DeclaresAny name thenBranch) : PassedOver e start name
  | elseBranch {e' e'' : Engine σ} {c : Condition} {thenBranch elseBranch rest : List Instruction}
    {t : VariableTable} (hreach : Reaches e start e' ⟨.branch c thenBranch elseBranch :: rest, t⟩)
    (htest : e'.test c t = (.ok true, e''))
    (hdeclares : Instruction.DeclaresAny name elseBranch) : PassedOver e start name

/-- A branch does not take the side on which a variable of this name is declared. -/
def Skips (e : Engine σ) (i : Instruction) (t : VariableTable) (name : String) : Prop :=
  ∃ c thenBranch elseBranch e', i = .branch c thenBranch elseBranch ∧
    (e.test c t = (.ok false, e') ∧ Instruction.DeclaresAny name thenBranch ∨
      e.test c t = (.ok true, e') ∧ Instruction.DeclaresAny name elseBranch)

/-- What a branch does not take is passed over by the run that comes to it. -/
theorem Skips.passedOver {e e' : Engine σ} {start : Progress} {i : Instruction}
    {rest : List Instruction} {t : VariableTable} {name : String} (h : e'.Skips i t name)
    (hreach : Reaches e start e' ⟨i :: rest, t⟩) : PassedOver e start name := by
  obtain ⟨c, thenBranch, elseBranch, e'', rfl, ⟨htest, hdeclares⟩ | ⟨htest, hdeclares⟩⟩ := h
  · exact .thenBranch hreach htest hdeclares
  · exact .elseBranch hreach htest hdeclares

/-- What an advance leaves of a program declares inside of branches only what the program does. -/
theorem declaresInBranch_advance {e e' : Engine σ} {i : Instruction} {rest : List Instruction}
    {t : VariableTable} {p : Progress} (h : e.advance i rest t = (.ok p, e')) {name : String}
    {j : Instruction} (hj : j ∈ p.remaining) (hdeclares : j.DeclaresInBranch name) :
    ∃ k ∈ i :: rest, k.DeclaresInBranch name := by
  have hrest : j ∈ rest → ∃ k ∈ i :: rest, k.DeclaresInBranch name :=
    fun hj => ⟨j, List.mem_cons_of_mem _ hj, hdeclares⟩
  cases i with
  | branch c thenBranch elseBranch =>
    have hside : j ∈ thenBranch ∨ j ∈ elseBranch →
        ∃ k ∈ Instruction.branch c thenBranch elseBranch :: rest, k.DeclaresInBranch name := by
      intro hj
      exact ⟨_, List.mem_cons_self, hj.imp (Instruction.declaresAny_of_mem · hdeclares)
        (Instruction.declaresAny_of_mem · hdeclares)⟩
    simp only [advance] at h
    split at h
    · cases h
    · cases h
      exact (List.mem_append.mp hj).elim (fun hj => hside (.inl hj)) hrest
    · cases h
      exact (List.mem_append.mp hj).elim (fun hj => hside (.inr hj)) hrest
  | declareInput =>
    rw [remaining_resume h] at hj
    exact hrest hj
  | declareLocal =>
    rw [remaining_resume h] at hj
    exact hrest hj
  | setLocal =>
    rw [remaining_resume h] at hj
    exact hrest hj

/-- A run passes over no declaration but those that its program has inside of branches. -/
theorem PassedOver.declaresInBranch {e : Engine σ} {start : Progress} {name : String}
    (h : PassedOver e start name) : ∃ i ∈ start.remaining, i.DeclaresInBranch name := by
  have hreached : ∀ {e e' : Engine σ} {p p' : Progress}, Reaches e p e' p' →
      ∀ j ∈ p'.remaining, j.DeclaresInBranch name → ∃ i ∈ p.remaining, i.DeclaresInBranch name := by
    intro e e' p p' hrun
    induction hrun with
    | refl => exact fun j hj hdeclares => ⟨j, hj, hdeclares⟩
    | advance hadvance _ ih =>
      intro j hj hdeclares
      obtain ⟨k, hk, hdeclares⟩ := ih j hj hdeclares
      exact declaresInBranch_advance hadvance hk hdeclares
  cases h with
  | thenBranch hrun _ hdeclares => exact hreached hrun _ List.mem_cons_self (.inl hdeclares)
  | elseBranch hrun _ hdeclares => exact hreached hrun _ List.mem_cons_self (.inr hdeclares)

end Engine

end Scriptorium

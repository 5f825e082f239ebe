import Scriptorium.Proofs.Engine.Reading
import Scriptorium.Proofs.Run.Course
import Scriptorium.Proofs.Script.Matches
import Scriptorium.Proofs.Variable.Agreement

/-!
# What is in scope along a run

The instructions that remain of a checked script are pieces of it, and between
two pieces stands the end of a branch. A run has the variables that are declared
above the place it has reached, but for those on the sides of branches that it
has not taken. So an expression that it comes to was checked against declarations
that the run has, or has passed over.
-/

namespace Scriptorium

open ScriptCheck (Site Tests Matches)

namespace Engine

variable {types : Registry} {units : List PendingExpression} {declared declared' : VariableTable}

/-- The declarations that statements add are made by their instructions. -/
theorem matches_extends {ss : List Statement} {is : List Instruction}
    (h : Matches types units declared ss is declared') :
    VariableTable.Extends (Instruction.DeclaresAny · is) declared declared' := by
  induction h with
  | nil => exact .refl _ _
  | @declareInput declared declared' name typeName line ss is hname hknown hfresh k ih =>
    have hnew : Instruction.DeclaresAny name
        (.declareInput name (.ofTypeName typeName) :: is) := .inl rfl
    exact (VariableTable.Extends.addInput hfresh hnew _).trans (ih.mono fun _ => .inr)
  | @declareLocal declared declared' name typeName line ss is hname hknown hfresh k ih =>
    have hnew : Instruction.DeclaresAny name
        (.declareLocal name (.ofTypeName typeName) none :: is) := .inl rfl
    exact (VariableTable.Extends.setLocal hfresh hnew _).trans (ih.mono fun _ => .inr)
  | @initLocal declared declared' name typeName line ref kind ss is hname hknown hfresh hsite
      haccepts k ih =>
    have hnew : Instruction.DeclaresAny name
        (.declareLocal name (.ofTypeName typeName) (some ref) :: is) := .inl rfl
    exact (VariableTable.Extends.setLocal hfresh hnew _).trans (ih.mono fun _ => .inr)
  | setLocal htarget hsite haccepts k ih => exact ih.mono fun _ => .inr
  | branch hcondition hthen helse k ih₁ ih₂ ih =>
    refine VariableTable.Extends.trans ?_ (ih.mono fun _ => .inr)
    exact VariableTable.Extends.trans (ih₁.mono fun _ hd => .inl (.inl hd))
      (ih₂.mono fun _ hd => .inl (.inr hd))

/-- The instructions are those of checked statements, piece by piece. Behind a piece stand the
declarations that it makes, and possibly others that have been passed over. -/
inductive Pieces (passed : String → Prop) (types : Registry) (units : List PendingExpression) :
    VariableTable → List Instruction → Prop
  | nil {declared : VariableTable} : Pieces passed types units declared []
  | pass {declared declared' : VariableTable} {rest : List Instruction}
    (h : VariableTable.Extends passed declared declared')
    (k : Pieces passed types units declared' rest) : Pieces passed types units declared rest
  | append {declared declared' : VariableTable} {ss : List Statement}
    {is rest : List Instruction} (h : Matches types units declared ss is declared')
    (k : Pieces passed types units declared' rest) : Pieces passed types units declared (is ++ rest)

/-- The variables are those declared above the place that has been reached, but for declarations
that have been passed over. -/
def Scoped (passed : String → Prop) (types : Registry) (units : List PendingExpression)
    (p : Progress) : Prop :=
  ∃ declared, declared.Agrees passed p.table ∧ Pieces passed types units declared p.remaining

namespace Scoped

variable {passed : String → Prop} {i : Instruction} {rest : List Instruction} {t : VariableTable}

/-- Before its first instruction a script has everything in scope. -/
theorem of_matches {ss : List Statement} {is : List Instruction}
    (h : Matches types units .empty ss is declared) (values : List Value) :
    Scoped passed types units ⟨is, .withInputs values⟩ := by
  have hnil : Pieces passed types units declared [] := .nil
  have hpieces := hnil.append h
  rw [List.append_nil] at hpieces
  exact ⟨.empty, .start _ values, hpieces⟩

/-- The next instruction belongs to a statement that was checked against what is in scope. -/
theorem next (h : Scoped passed types units ⟨i :: rest, t⟩) :
    ∃ declared ss is declared' others, declared.Agrees passed t ∧
      Matches types units declared ss (i :: is) declared' ∧ rest = is ++ others ∧
      Pieces passed types units declared' others := by
  obtain ⟨declared, hagrees, hpieces⟩ := h
  dsimp only at hagrees hpieces
  generalize hall : i :: rest = all at hpieces
  induction hpieces with
  | nil => cases hall
  | pass hextends _ ih => exact ih (hagrees.pass hextends) hall
  | @append declared declared' ss is others hmatches hpieces ih =>
    cases is with
    | nil =>
      cases hmatches
      exact ih hagrees hall
    | cons j is =>
      cases hall
      exact ⟨declared, ss, is, declared', others, hagrees, hmatches, rfl, hpieces⟩

/-- The expressions of the next instruction were checked against what is in scope. -/
theorem sites (h : Scoped passed types units ⟨i :: rest, t⟩) :
    ∀ ref ∈ i.operands, ∃ declared kind, declared.Agrees passed t ∧
      Site types units declared ref.source ref kind := by
  obtain ⟨declared, ss, is, declared', others, hagrees, hmatches, -, -⟩ := h.next
  intro ref href
  cases hmatches with
  | declareInput => cases href
  | declareLocal => cases href
  | initLocal _ _ _ hsite =>
    obtain rfl := List.mem_singleton.mp href
    exact ⟨declared, _, hagrees, hsite⟩
  | setLocal _ hsite =>
    obtain rfl := List.mem_singleton.mp href
    exact ⟨declared, _, hagrees, hsite⟩
  | branch hcondition _ _ _ =>
    obtain ⟨left, right, hleft, hright, -⟩ := hcondition.sites
    rcases List.mem_cons.mp href with rfl | href
    · exact ⟨declared, left, hagrees, hleft⟩
    · obtain rfl := List.mem_singleton.mp href
      exact ⟨declared, right, hagrees, hright⟩

variable {σ : Type} [CodeRepository σ] {e e' : Engine σ} {p : Progress}

/-- A step keeps in scope what is declared above the place that it leads to, when what it skips
counts as passed over. -/
theorem advance (h : Scoped passed types units ⟨i :: rest, t⟩)
    (hskips : ∀ name, e.Skips i t name → passed name)
    (hadvance : e.advance i rest t = (.ok p, e')) : Scoped passed types units p := by
  obtain ⟨declared, ss, is, declared', others, hagrees, hmatches, rfl, hpieces⟩ := h.next
  cases hmatches with
  | declareInput hname hknown hfresh k =>
    obtain ⟨t', hbound, rfl⟩ := resume_ok hadvance
    obtain ⟨-, v, pending, rfl⟩ :=
      VariableTable.bindInput_eq_ok (onVariables_ok (congrArg Prod.fst hbound))
    refine ⟨_, ?_, .append k hpieces⟩
    exact (hagrees.addInput hfresh (v := ⟨_, v⟩) (w := ⟨_, .null⟩) rfl).pending pending
  | declareLocal hname hknown hfresh k =>
    obtain ⟨t', hdeclared, rfl⟩ := resume_ok hadvance
    obtain ⟨-, rfl⟩ :=
      VariableTable.declareLocal_eq_ok (onVariables_ok (congrArg Prod.fst hdeclared))
    exact ⟨_, hagrees.addLocal hfresh rfl, .append k hpieces⟩
  | initLocal hname hknown hfresh hsite haccepts k =>
    obtain ⟨t', hdeclared, rfl⟩ := resume_ok hadvance
    obtain ⟨v, w, hget, rfl⟩ := initLocal_ok hdeclared
    exact ⟨_, (hagrees.addLocal hfresh rfl).update hget rfl, .append k hpieces⟩
  | setLocal htarget hsite haccepts k =>
    obtain ⟨t', hassigned, rfl⟩ := resume_ok hadvance
    obtain rfl | ⟨name, v, w, hget, rfl⟩ := setLocal_ok hassigned
    · exact ⟨declared, hagrees, .append k hpieces⟩
    · exact ⟨declared, hagrees.update hget rfl, .append k hpieces⟩
  | branch hcondition hthen helse k =>
    simp only [Engine.advance] at hadvance
    split at hadvance
    · cases hadvance
    · next htest =>
      cases hadvance
      have hpassed := (matches_extends helse).mono fun name hd =>
        hskips name ⟨_, _, _, _, rfl, .inr ⟨htest, hd⟩⟩
      exact ⟨declared, hagrees, .append hthen (.pass hpassed (.append k hpieces))⟩
    · next htest =>
      cases hadvance
      have hpassed := (matches_extends hthen).mono fun name hd =>
        hskips name ⟨_, _, _, _, rfl, .inl ⟨htest, hd⟩⟩
      exact ⟨_, hagrees.pass hpassed, .append helse (.append k hpieces)⟩

/-- Where declarations may be missing, a run has no others than those in scope. -/
theorem comes {q : Progress} (h : Scoped (fun _ => True) types units p) (hrun : Comes σ p q) :
    Scoped (fun _ => True) types units q := by
  induction hrun with
  | refl => exact h
  | advance hadvance _ ih => exact ih (h.advance (fun _ _ => trivial) hadvance)

end Scoped

variable {σ : Type} [CodeRepository σ]

/-- The run that began in the first state has what is declared above the place it has reached, but
for declarations that it has passed over. -/
def InScope (e : Engine σ) (start : Progress) (types : Registry) (units : List PendingExpression)
    (p : Progress) : Prop :=
  Scoped (e.PassedOver start) types units p

namespace InScope

variable {e e₁ e₂ : Engine σ} {start p : Progress}

/-- A run goes on with what is in scope where it has come to. -/
theorem resumed {q : Progress} (hreached : Reaches e start e₁ p)
    (h : e.InScope start types units p) (hrun : Reaches e₁ p e₂ q) :
    e.InScope start types units q := by
  induction hrun with
  | refl => exact h
  | advance hadvance _ ih =>
    exact ih (hreached.step hadvance)
      (h.advance (fun _ hskips => hskips.passedOver hreached) hadvance)

/-- A run has in scope what is declared above the place that it has reached. -/
theorem reaches (h : e.InScope start types units start) (hrun : Reaches e start e₁ p) :
    e.InScope start types units p :=
  h.resumed (.refl _ _) hrun

end InScope

end Engine

end Scriptorium

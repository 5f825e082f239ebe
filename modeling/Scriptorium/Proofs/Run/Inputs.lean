import Mathlib.Data.List.Nodup
import Scriptorium.Proofs.Run.Refinement
import Scriptorium.Proofs.Unit.Manifest

/-!
# Inputs of a run

The declarations of inputs that a run comes to take the queued values one by
one, in the order of the manifest, as far as the run comes to them. A parameter
that the run passes over, on a side of a branch that it does not take, leaves
its value to the next parameter.
-/

namespace Scriptorium

/-- How many of the parameters the table declares. -/
def VariableTable.declaredAmong (t : VariableTable) (parameters : InputManifest) : Nat :=
  parameters.countP fun p => t.inputs.contains p.name

/-- A parameter of a part of a manifest stands in the manifest behind so many others of that part
as it does in the part. -/
theorem position_of_sublist {part manifest : InputManifest} (h : part.Sublist manifest)
    (hnodup : manifest.Nodup) {inPart : InputParameter → Bool}
    (hpart : ∀ p ∈ manifest, inPart p = true ↔ p ∈ part) {k : Nat} {p : InputParameter}
    (hk : part[k]? = some p) :
    ∃ i, manifest[i]? = some p ∧ (manifest.take i).countP inPart = k := by
  induction h generalizing k with
  | slnil => cases hk
  | @cons part manifest q h ih =>
    obtain ⟨hq, hrest⟩ := List.nodup_cons.mp hnodup
    obtain ⟨i, hi, hcount⟩ := ih hrest (fun p hp => hpart p (List.mem_cons_of_mem _ hp)) hk
    have hout : ¬ inPart q = true := fun hin => hq (h.subset ((hpart q List.mem_cons_self).mp hin))
    exact ⟨i + 1, hi, by rw [List.take_succ_cons, List.countP_cons_of_neg hout, hcount]⟩
  | @cons_cons part manifest q h ih =>
    obtain ⟨hq, hrest⟩ := List.nodup_cons.mp hnodup
    cases k with
    | zero => exact ⟨0, hk, rfl⟩
    | succ k =>
      have hpart' : ∀ p ∈ manifest, inPart p = true ↔ p ∈ part := by
        intro p hp
        have hne : p ≠ q := fun heq => hq (heq ▸ hp)
        rw [hpart p (List.mem_cons_of_mem _ hp), List.mem_cons, or_iff_right hne]
      obtain ⟨i, hi, hcount⟩ := ih hrest hpart' hk
      have hin : inPart q = true := (hpart q List.mem_cons_self).mpr List.mem_cons_self
      exact ⟨i + 1, hi, by rw [List.take_succ_cons, List.countP_cons_of_pos hin, hcount]⟩

/-- These parameters have been bound to the first values, one to each, and the table declares no
other input. -/
structure InputsBound (bound : InputManifest) (values : List Value) (t : VariableTable) :
    Prop where
  pending : t.pending = values.drop bound.length
  held : ∀ (k : Nat) (p : InputParameter), bound[k]? = some p → ∃ raw v, values[k]? = some raw ∧
    p.type.coerce raw = .ok v ∧ t.inputs.get? p.name = some ⟨p.type, v⟩
  named : ∀ x v, t.inputs.get? x = some v → ∃ p ∈ bound, p.name = x

namespace InputsBound

variable {bound : InputManifest} {values : List Value} {t t' : VariableTable}

theorem start (values : List Value) : InputsBound [] values (.withInputs values) where
  pending := rfl
  held := nofun
  named := nofun

/-- Nothing but the inputs and the values that are left matters. -/
theorem congr (h : InputsBound bound values t) (hinputs : t'.inputs = t.inputs)
    (hpending : t'.pending = t.pending) : InputsBound bound values t' where
  pending := hpending.trans h.pending
  held := hinputs ▸ h.held
  named := hinputs ▸ h.named

/-- The next declaration takes the next value. -/
theorem bind (h : InputsBound bound values t) {name : String} {type : SemanticType} {raw v : Value}
    {pending : List Value} (hfresh : t.namespace? name = none) (htaken : t.pending = raw :: pending)
    (hcoerce : type.coerce raw = .ok v) :
    InputsBound (bound ++ [⟨name, type⟩]) values { t.addInput name ⟨type, v⟩ with pending } where
  pending := by
    have htail : t.pending.tail = values.drop (bound.length + 1) := by
      rw [h.pending, List.tail_drop]
    rw [htaken] at htail
    rw [List.length_append]
    exact htail
  held k p hk := by
    simp only [VariableTable.addInput]
    rcases Nat.lt_trichotomy k bound.length with hlt | rfl | hgt
    · rw [List.getElem?_append_left hlt] at hk
      obtain ⟨raw', v', hraw, hv, hget⟩ := h.held k p hk
      have hne : p.name ≠ name := by
        rintro rfl
        rw [(VariableTable.namespace?_eq_none.mp hfresh).1] at hget
        cases hget
      exact ⟨raw', v', hraw, hv, by rw [Dictionary.get?_insert_of_ne _ hne, hget]⟩
    · rw [List.getElem?_concat_length] at hk
      cases hk
      refine ⟨raw, v, ?_, hcoerce, Dictionary.get?_insert_self _ _ _⟩
      rw [← List.head?_drop, ← h.pending, htaken]
      rfl
    · rw [List.getElem?_eq_none (by rw [List.length_append]; exact hgt)] at hk
      cases hk
  named x w hx := by
    simp only [VariableTable.addInput] at hx
    by_cases hname : x = name
    · exact ⟨⟨name, type⟩, List.mem_append_right _ List.mem_cons_self, hname.symm⟩
    · rw [Dictionary.get?_insert_of_ne _ hname] at hx
      obtain ⟨p, hp, hpx⟩ := h.named x w hx
      exact ⟨p, List.mem_append_left _ hp, hpx⟩

/-- Bound parameters of a manifest are told by the inputs of the table. -/
theorem contains_iff (h : InputsBound bound values t) {manifest : InputManifest}
    (hsub : bound.Sublist manifest) (hnodup : (manifest.map (·.name)).Nodup) :
    ∀ p ∈ manifest, t.inputs.contains p.name = true ↔ p ∈ bound := by
  intro p hp
  constructor
  · intro hcontains
    obtain ⟨v, hv⟩ := Option.isSome_iff_exists.mp hcontains
    obtain ⟨q, hq, hname⟩ := h.named p.name v hv
    rwa [← List.inj_on_of_nodup_map hnodup (hsub.subset hq) hp hname]
  · intro hmem
    obtain ⟨k, hk⟩ := List.mem_iff_getElem?.mp hmem
    obtain ⟨raw, v, -, -, hget⟩ := h.held k p hk
    rw [Dictionary.contains, hget]
    rfl

end InputsBound

@[simp] theorem Instruction.allDeclaredInputs_append (is js : List Instruction) :
    allDeclaredInputs (is ++ js) = allDeclaredInputs is ++ allDeclaredInputs js := by
  induction is with
  | nil => rfl
  | cons i is ih => simp only [List.cons_append, allDeclaredInputs, ih, List.append_assoc]

namespace Engine

variable {σ : Type} [CodeRepository σ]

/-- An advance binds the next value to an input, or binds none and passes over some declarations of
inputs at most. -/
theorem advance_inputs {e e' : Engine σ} {i : Instruction} {rest : List Instruction}
    {t : VariableTable} {next : Progress} (h : e.advance i rest t = (.ok next, e')) :
    (∃ name type raw pending v, i = .declareInput name type ∧ t.namespace? name = none ∧
      t.pending = raw :: pending ∧ type.coerce raw = .ok v ∧
      next = ⟨rest, { t.addInput name ⟨type, v⟩ with pending }⟩) ∨
    next.table.inputs = t.inputs ∧ next.table.pending = t.pending ∧
      (Instruction.allDeclaredInputs next.remaining).Sublist
        (Instruction.allDeclaredInputs (i :: rest)) := by
  have hskip (ps qs : InputManifest) : qs.Sublist (ps ++ qs) := List.sublist_append_right ps qs
  cases i with
  | declareInput name type =>
    left
    obtain ⟨t', hbind, rfl⟩ := resume_ok h
    obtain ⟨hbind, -⟩ := Prod.mk.inj hbind
    obtain ⟨hfresh, raw, pending, v, htaken, hcoerce, rfl⟩ :=
      VariableTable.bindInput_taken (onVariables_ok hbind)
    exact ⟨name, type, raw, pending, v, rfl, hfresh, htaken, hcoerce, rfl⟩
  | declareLocal name type init =>
    right
    obtain ⟨t', hdeclare, rfl⟩ := resume_ok h
    suffices hsame : t'.inputs = t.inputs ∧ t'.pending = t.pending from
      ⟨hsame.1, hsame.2, hskip _ _⟩
    cases init with
    | none =>
      obtain ⟨hdeclare, -⟩ := Prod.mk.inj hdeclare
      obtain ⟨-, rfl⟩ := VariableTable.declareLocal_eq_ok (onVariables_ok hdeclare)
      exact ⟨rfl, rfl⟩
    | some ref =>
      obtain ⟨v, w, -, rfl⟩ := initLocal_ok hdeclare
      exact ⟨rfl, rfl⟩
  | setLocal target ref =>
    right
    obtain ⟨t', hset, rfl⟩ := resume_ok h
    obtain rfl | ⟨name, v, w, -, rfl⟩ := setLocal_ok hset
    · exact ⟨rfl, rfl, hskip _ _⟩
    · exact ⟨rfl, rfl, hskip _ _⟩
  | branch condition thenBranch elseBranch =>
    right
    simp only [advance] at h
    split at h
    · cases h
    · cases h
      refine ⟨rfl, rfl, ?_⟩
      simp only [Instruction.allDeclaredInputs_append, Instruction.allDeclaredInputs,
        Instruction.declaredInputs, List.append_assoc]
      exact (List.Sublist.refl _).append (hskip _ _)
    · cases h
      refine ⟨rfl, rfl, ?_⟩
      simp only [Instruction.allDeclaredInputs_append, Instruction.allDeclaredInputs,
        Instruction.declaredInputs, List.append_assoc]
      exact hskip _ _

/-- A run comes to its end with this table. Between two instructions the engine may be changed in
any way. -/
inductive Completes (σ : Type) [CodeRepository σ] : Progress → VariableTable → Prop
  | done (t : VariableTable) : Completes σ ⟨[], t⟩ t
  | advance {e e' : Engine σ} {i : Instruction} {rest : List Instruction} {t t' : VariableTable}
    {next : Progress} (h : e.advance i rest t = (.ok next, e')) (k : Completes σ next t') :
    Completes σ ⟨i :: rest, t⟩ t'

/-- A run that is carried out without a break comes to its end. -/
theorem completes_finish {e e' : Engine σ} {p : Progress} {t : VariableTable}
    (h : e.finish p = (.ok t, e')) : Completes σ p t := by
  induction hn : Instruction.sizes p.remaining using Nat.strongRecOn generalizing e p with
  | ind n ih =>
    obtain ⟨remaining, table⟩ := p
    cases remaining with
    | nil =>
      rw [finish_nil] at h
      obtain ⟨hsame, -⟩ := Prod.mk.inj h
      cases hsame
      exact .done _
    | cons i rest =>
      rw [finish_cons] at h
      split at h
      · cases h
      · next next e₁ hadvance =>
        exact .advance hadvance (ih _ (hn ▸ sizes_remaining_advance hadvance) h rfl)

/-- An advance binds some of the inputs that are declared ahead, in their order. -/
theorem advance_bound {e e' : Engine σ} {i : Instruction} {rest : List Instruction}
    {t : VariableTable} {next : Progress} {bound : InputManifest} {values : List Value}
    (h : e.advance i rest t = (.ok next, e')) (hbound : InputsBound bound values t) :
    ∃ more, InputsBound (bound ++ more) values next.table ∧
      (more ++ Instruction.allDeclaredInputs next.remaining).Sublist
        (Instruction.allDeclaredInputs (i :: rest)) := by
  rcases advance_inputs h with
    ⟨name, type, raw, pending, v, rfl, hfresh, htaken, hcoerce, rfl⟩ | ⟨hinputs, hpending, hsub⟩
  · exact ⟨[⟨name, type⟩], hbound.bind hfresh htaken hcoerce, .refl _⟩
  · exact ⟨[], by rw [List.append_nil]; exact hbound.congr hinputs hpending, hsub⟩

/-- A run binds some of the inputs that its instructions declare, in their order. -/
theorem Completes.bound {p : Progress} {t : VariableTable} (h : Completes σ p t)
    {bound : InputManifest} {values : List Value} (hbound : InputsBound bound values p.table) :
    ∃ more, InputsBound (bound ++ more) values t ∧
      more.Sublist (Instruction.allDeclaredInputs p.remaining) := by
  induction h generalizing bound with
  | done t => exact ⟨[], by rwa [List.append_nil], List.nil_sublist _⟩
  | advance hadvance _ ih =>
    obtain ⟨more, hmore, hsub⟩ := advance_bound hadvance hbound
    obtain ⟨others, hothers, hrest⟩ := ih hmore
    refine ⟨more ++ others, by rwa [← List.append_assoc], ?_⟩
    exact ((List.Sublist.refl more).append hrest).trans hsub

/-- Every input of a completed run is a parameter of the script's manifest. It holds the value that
is queued behind as many others as the run has declared parameters in front of it. -/
theorem inputs_in_order {types : Registry} {name : QualifiedName} {body : String}
    {c : ScriptCompilation} {program : ScriptProgram} {values : List Value} {t : VariableTable}
    (hcompile : (Compile.script name body).run types = .ok c)
    (hload : c.script.load = .ok (.script program))
    (hrun : Completes σ ⟨program.statements, .withInputs values⟩ t) :
    (c.inputs.map (·.name)).Nodup ∧
      ∀ x v, t.inputs.get? x = some v → ∃ i p raw, c.inputs[i]? = some p ∧ p.name = x ∧
        p.type = v.type ∧ p.type.coerce raw = .ok v.value ∧
        values[t.declaredAmong (c.inputs.take i)]? = some raw ∧
        ((∀ q ∈ c.inputs.take i, t.inputs.contains q.name = true) → values[i]? = some raw) := by
  obtain ⟨parts⟩ := Compile.script_eq_ok hcompile
  obtain ⟨-, hdeclared⟩ := parts.inputs_of_load hload
  have hnodup := parts.nodup_inputs
  obtain ⟨bound, hbound, hsub⟩ := hrun.bound (.start values)
  rw [List.nil_append] at hbound
  rw [hdeclared] at hsub
  refine ⟨hnodup, fun x v hx => ?_⟩
  obtain ⟨p, hp, rfl⟩ := hbound.named x v hx
  obtain ⟨k, hk⟩ := List.mem_iff_getElem?.mp hp
  obtain ⟨raw, v', hraw, hcoerce, hget⟩ := hbound.held k p hk
  rw [hx] at hget
  cases hget
  obtain ⟨i, hi, hcount⟩ :=
    position_of_sublist hsub (.of_map _ hnodup) (hbound.contains_iff hsub hnodup) hk
  refine ⟨i, p, raw, hi, rfl, rfl, hcoerce, ?_, fun hall => ?_⟩
  · rw [VariableTable.declaredAmong, hcount]
    exact hraw
  · rw [List.countP_eq_length.mpr hall, List.length_take,
      Nat.min_eq_left (Nat.le_of_lt (List.getElem?_eq_some_iff.mp hi).1)] at hcount
    rwa [hcount]

/-- A script that declares one input on either side of a branch, and takes the second side. -/
def alternatives : String :=
  "if (EqualCondition(\"1\", \"2\")) \x7b DeclareInputVar(\"A\", \"Integer\"); \x7d " ++
    "else \x7b DeclareInputVar(\"B\", \"Integer\"); \x7d"

/-- The interpretation ends with one input alone, which has this name and holds this integer. -/
def endsWithInput (name : String) (n : Int64) : Interpretation.Meaning VariableTable → Bool
  | .ok t =>
    match t.inputs.entries with
    | [(x, ⟨.primitive .integer, .integer m⟩)] => x = name && m = n
    | _ => false
  | .error _ => false

/-- The second input is given, the first one is passed over. -/
theorem alternatives_run : ∃ c program t,
    (Compile.script (.script "Calc") alternatives).run (standalone.defining []).types = .ok c ∧
      c.script.load = .ok (.script program) ∧
      Completes NoRepository ⟨program.statements, .withInputs [.integer 10, .integer 20]⟩ t ∧
      c.inputs = [⟨"A", .primitive .integer⟩, ⟨"B", .primitive .integer⟩] ∧
      t.inputs.get? "A" = none ∧
      t.inputs.get? "B" = some ⟨.primitive .integer, .integer 10⟩ := by
  have hcompiles : ((Compile.script (.script "Calc") alternatives).run
      (standalone.defining []).types).toOption.isSome = true := by decide +kernel
  have hloads : Compile.scriptLoads (standalone.defining []).types (.script "Calc") alternatives =
      true := by decide +kernel
  have hinputs : ((Compile.script (.script "Calc") alternatives).run
      (standalone.defining []).types).toOption.map (·.inputs) =
        some [⟨"A", .primitive .integer⟩, ⟨"B", .primitive .integer⟩] := by decide +kernel
  have hends : (Script.parseScript alternatives.toList).toOption.any
      (fun body => endsWithInput "B" 10 (Interpretation.script (standalone.defining []).types
        (Interpretation.stored (standalone.defining []).types) body
        [.integer 10, .integer 20])) = true := by decide +kernel
  obtain ⟨c, hcompile, hload⟩ := Compile.exists_of_scriptLoads hcompiles hloads
  have hname := QualifiedName.readable_script "Calc"
  obtain ⟨p, u, e, outcome, -, -, hmeaning, hfinish⟩ :=
    finish_stored hname hcompile hload [.integer 10, .integer 20]
  obtain ⟨loaded, hscript⟩ := hload c.script List.mem_cons_self
  obtain ⟨-, rfl⟩ := script_load p hname hscript
  rw [hcompile] at hinputs
  rw [p.parsed] at hends
  change endsWithInput "B" 10 (Interpretation.script (standalone.defining []).types
    (Interpretation.stored (standalone.defining []).types) p.statements
    [.integer 10, .integer 20]) = true at hends
  rw [hmeaning] at hends
  cases outcome with
  | error cause => cases hends
  | ok t =>
    refine ⟨c, p.checked.program, t, hcompile, hscript, completes_finish hfinish,
      Option.some.inj hinputs, ?_⟩
    simp only [Except.mapError, endsWithInput] at hends
    split at hends
    · next x m hentries =>
      simp only [Bool.and_eq_true, decide_eq_true_eq] at hends
      obtain ⟨rfl, rfl⟩ := hends
      simp only [Dictionary.get?, hentries]
      exact ⟨rfl, rfl⟩
    · cases hends

theorem inputs_in_order_alternatives : ∃ c program t,
    (Compile.script (.script "Calc") alternatives).run (standalone.defining []).types = .ok c ∧
      c.script.load = .ok (.script program) ∧
      Completes NoRepository ⟨program.statements, .withInputs [.integer 10, .integer 20]⟩ t ∧
      (c.inputs.map (·.name)).Nodup ∧
      ∀ x v, t.inputs.get? x = some v → ∃ i p raw, c.inputs[i]? = some p ∧ p.name = x ∧
        p.type = v.type ∧ p.type.coerce raw = .ok v.value ∧
        [Value.integer 10, .integer 20][t.declaredAmong (c.inputs.take i)]? = some raw ∧
        ((∀ q ∈ c.inputs.take i, t.inputs.contains q.name = true) →
          [Value.integer 10, .integer 20][i]? = some raw) := by
  obtain ⟨c, program, t, hcompile, hload, hrun, -⟩ := alternatives_run
  exact ⟨c, program, t, hcompile, hload, hrun, inputs_in_order hcompile hload hrun⟩

/-- An input need not hold the value at the place that it has in the manifest. -/
theorem inputs_not_by_place : ¬ ∀ (types : Registry) (name : QualifiedName) (body : String)
    (c : ScriptCompilation) (program : ScriptProgram) (values : List Value) (t : VariableTable),
    (Compile.script name body).run types = .ok c → c.script.load = .ok (.script program) →
      Completes NoRepository ⟨program.statements, .withInputs values⟩ t →
      ∀ (i : Nat) (p : InputParameter) (v : Variable), c.inputs[i]? = some p →
        t.inputs.get? p.name = some v →
          ∃ raw, values[i]? = some raw ∧ p.type.coerce raw = .ok v.value := by
  intro h
  obtain ⟨c, program, t, hcompile, hload, hrun, hinputs, -, hget⟩ := alternatives_run
  obtain ⟨raw, hraw, hcoerce⟩ := h _ _ _ c program _ t hcompile hload hrun 1
    ⟨"B", .primitive .integer⟩ _ (by rw [hinputs]; rfl) hget
  obtain rfl : raw = .integer 20 := (Option.some.inj hraw).symm
  have htwenty : (SemanticType.primitive .integer).coerce (.integer 20) = .ok (.integer 20) := rfl
  rw [htwenty] at hcoerce
  cases hcoerce

end Engine

end Scriptorium

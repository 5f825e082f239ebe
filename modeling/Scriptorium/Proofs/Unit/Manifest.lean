import Scriptorium.Proofs.Unit.Compilation

/-!
# Manifests read back from documents

The manifest of a script lists the inputs that its instructions declare, and
their names differ. Reading a program back from its document changes neither,
whatever becomes of the names of its expressions.
-/

namespace Scriptorium

open Json

mutual

/-- An instruction that is read back declares the inputs that it declared. -/
theorem Instruction.declaredInputs_ofJson? (i : Instruction)
    (h : ∀ p ∈ i.declaredInputs, p.type.Readable) {depth : Nat} {j : Instruction}
    (hj : Instruction.ofJson? depth i.toJson = some j) : j.declaredInputs = i.declaredInputs := by
  match i with
  | .declareInput name type =>
    cases rereadAs hj with
    | declareInput htype => rw [SemanticType.ofJson?_toJson (h _ List.mem_cons_self) htype]
  | .declareLocal name type init =>
    cases rereadAs hj with
    | declareLocal => rfl
  | .setLocal target value =>
    cases rereadAs hj with
    | setLocal => rfl
  | .branch condition thenBranch elseBranch =>
    cases rereadAs hj with
    | branch hcondition hthen helse =>
      have hthen := Instruction.declaredInputs_ofJsonItems thenBranch
        (fun p hp => h p (List.mem_append_left _ hp)) hthen
      have helse := Instruction.declaredInputs_ofJsonItems elseBranch
        (fun p hp => h p (List.mem_append_right _ hp)) helse
      simp only [Instruction.declaredInputs, hthen, helse]

theorem Instruction.declaredInputs_ofJsonItems (is : List Instruction)
    (h : ∀ p ∈ Instruction.allDeclaredInputs is, p.type.Readable) {depth : Nat}
    {js : List Instruction}
    (hjs : (Instruction.toJsonItems is).mapM (Instruction.ofJson? depth) = some js) :
    Instruction.allDeclaredInputs js = Instruction.allDeclaredInputs is := by
  match is with
  | [] =>
    cases hjs
    rfl
  | i :: rest =>
    obtain ⟨j, others, hj, hothers, rfl⟩ := rereadItems hjs
    have hfirst := Instruction.declaredInputs_ofJson? i
      (fun p hp => h p (List.mem_append_left _ hp)) hj
    have hothers := Instruction.declaredInputs_ofJsonItems rest
      (fun p hp => h p (List.mem_append_right _ hp)) hothers
    simp only [Instruction.allDeclaredInputs, hfirst, hothers]

end

/-- A program that is read back has its manifest and declares the inputs that it declared. -/
theorem ScriptProgram.declaredInputs_ofJson? {depth : Nat} {p q : ScriptProgram}
    (hinputs : ∀ i ∈ p.inputs, i.type.Readable)
    (hdeclared : p.inputs = Instruction.allDeclaredInputs p.statements)
    (hq : ScriptProgram.ofJson? depth p.toJson = some q) :
    q.inputs = p.inputs ∧ Instruction.allDeclaredInputs q.statements = p.inputs := by
  obtain ⟨hsame, inner, hread⟩ := rereadParts hinputs hq
  have hstatements :=
    Instruction.declaredInputs_ofJsonItems p.statements (hdeclared ▸ hinputs) hread
  exact ⟨hsame, hstatements.trans hdeclared.symm⟩

/-- A program that is read back as a unit is read back from its own document. -/
theorem UnitBody.ofJson?_script {depth : Nat} {p q : ScriptProgram}
    (hq : ofJson? depth (UnitBody.script p).toJson = some (.script q)) :
    ∃ inner, ScriptProgram.ofJson? inner p.toJson = some q := by
  cases depth with
  | zero => simp [ofJson?, toJson, alternative?_zero] at hq
  | succ depth =>
    rw [ofJson?, toJson, alternative?_tagged] at hq
    simp only [Option.bind_eq_bind, Option.bind_some] at hq
    obtain ⟨program, hprogram, hq⟩ := Option.bind_eq_some_iff.mp hq
    cases hq
    exact ⟨depth, hprogram⟩

namespace ScriptCheck.Matches

variable {types : Registry} {units : List PendingExpression} {t t' : VariableTable}
  {ss : List Statement} {is : List Instruction}

/-- The inputs of checked statements have types that are written by name. -/
theorem readable_inputs (h : Matches types units t ss is t') :
    ∀ p ∈ Instruction.allDeclaredInputs is, p.type.Readable := by
  induction h with
  | nil => exact List.forall_mem_nil _
  | declareInput _ _ _ _ ih =>
    intro p hp
    rcases List.mem_cons.mp hp with rfl | hp
    · exact SemanticType.readable_ofTypeName _
    · exact ih p hp
  | declareLocal _ _ _ _ ih => exact ih
  | initLocal _ _ _ _ _ _ ih => exact ih
  | setLocal _ _ _ _ ih => exact ih
  | branch _ _ _ _ ih₁ ih₂ ih =>
    intro p hp
    rcases List.mem_append.mp hp with hp | hp
    · rcases List.mem_append.mp hp with hp | hp
      · exact ih₁ p hp
      · exact ih₂ p hp
    · exact ih p hp

/-- Parameters whose names are taken behind one part and free in front of the next one have
different names. -/
theorem nodup_names_append {ps qs : InputManifest} {t : VariableTable}
    (hps : ∀ p ∈ ps, t.namespace? p.name ≠ none) (hqs : ∀ q ∈ qs, t.namespace? q.name = none)
    (hp : (ps.map (·.name)).Nodup) (hq : (qs.map (·.name)).Nodup) :
    ((ps ++ qs).map (·.name)).Nodup := by
  rw [List.map_append]
  refine List.nodup_append.mpr ⟨hp, hq, ?_⟩
  rintro x hx y hy rfl
  obtain ⟨p, hp, rfl⟩ := List.mem_map.mp hx
  obtain ⟨q, hq, hsame⟩ := List.mem_map.mp hy
  exact hps p hp (hsame ▸ hqs q hq)

/-- Statements declare inputs under names that are free before them and taken behind them. -/
theorem names_inputs (h : Matches types units t ss is t') :
    (∀ p ∈ Instruction.allDeclaredInputs is,
      t.namespace? p.name = none ∧ t'.namespace? p.name ≠ none) ∧
    ((Instruction.allDeclaredInputs is).map (·.name)).Nodup := by
  induction h with
  | nil => exact ⟨List.forall_mem_nil _, List.nodup_nil⟩
  | @declareInput t t' name typeName line rest is _ _ hfresh k ih =>
    obtain ⟨hnames, hnodup⟩ := ih
    have hwithin := VariableTable.within_addInput hfresh ⟨.ofTypeName typeName, .null⟩
    have htaken : (t.addInput name ⟨.ofTypeName typeName, .null⟩).namespace? name ≠ none := by
      rw [ne_eq, ← VariableTable.get?_eq_none, VariableTable.get?_addInput hfresh, if_pos rfl]
      exact Option.some_ne_none _
    constructor
    · intro p hp
      rcases List.mem_cons.mp hp with rfl | hp
      · exact ⟨hfresh, mt k.within.free htaken⟩
      · exact ⟨hwithin.free (hnames p hp).1, (hnames p hp).2⟩
    · refine List.nodup_cons.mpr ⟨fun hmem => ?_, hnodup⟩
      obtain ⟨p, hp, rfl⟩ := List.mem_map.mp hmem
      exact htaken (hnames p hp).1
  | declareLocal _ _ hfresh k ih =>
    exact ⟨fun p hp => ⟨(VariableTable.within_setLocal hfresh _).free (ih.1 p hp).1,
      (ih.1 p hp).2⟩, ih.2⟩
  | initLocal _ _ hfresh _ _ k ih =>
    exact ⟨fun p hp => ⟨(VariableTable.within_setLocal hfresh _).free (ih.1 p hp).1,
      (ih.1 p hp).2⟩, ih.2⟩
  | setLocal _ _ _ _ ih => exact ih
  | branch _ hthen helse k ih₁ ih₂ ih =>
    obtain ⟨hnames₁, hnodup₁⟩ := ih₁
    obtain ⟨hnames₂, hnodup₂⟩ := ih₂
    obtain ⟨hnames, hnodup⟩ := ih
    constructor
    · intro p hp
      rcases List.mem_append.mp hp with hp | hp
      · rcases List.mem_append.mp hp with hp | hp
        · exact ⟨(hnames₁ p hp).1, mt (helse.within.trans k.within).free (hnames₁ p hp).2⟩
        · exact ⟨hthen.within.free (hnames₂ p hp).1, mt k.within.free (hnames₂ p hp).2⟩
      · exact ⟨(hthen.within.trans helse.within).free (hnames p hp).1, (hnames p hp).2⟩
    · have hparts := nodup_names_append (fun p hp => (hnames₁ p hp).2)
        (fun q hq => (hnames₂ q hq).1) hnodup₁ hnodup₂
      refine nodup_names_append (fun p hp => ?_) (fun q hq => (hnames q hq).1) hparts hnodup
      rcases List.mem_append.mp hp with hp | hp
      · exact mt helse.within.free (hnames₁ p hp).2
      · exact (hnames₂ p hp).2

end ScriptCheck.Matches

namespace Compile.Parts

variable {types : Registry} {name : QualifiedName} {body : String} {c : ScriptCompilation}

/-- No two parameters of a script that compiles have one name. -/
theorem nodup_inputs (p : Parts types name body c) : (c.inputs.map (·.name)).Nodup := by
  obtain ⟨⟨declared, hmatches⟩, hinputs, -⟩ := ScriptCheck.check_matches p.check
  rw [p.inputs, hinputs]
  exact hmatches.names_inputs.2

/-- The program of a script, as it is loaded, declares the inputs of the script's manifest. -/
theorem inputs_of_load (p : Parts types name body c) {program : ScriptProgram}
    (hload : c.script.load = .ok (.script program)) :
    program.inputs = c.inputs ∧ Instruction.allDeclaredInputs program.statements = c.inputs := by
  obtain ⟨⟨declared, hmatches⟩, hinputs, -⟩ := ScriptCheck.check_matches p.check
  rw [p.script] at hload
  obtain ⟨hdecode, -, -⟩ := Payload.load_eq_ok.mp (CompiledUnit.load_ofBody_eq_ok.mp hload)
  obtain ⟨depth, hread⟩ := UnitBody.ofJson?_script (Payload.decode_encode.mp hdecode)
  rw [p.inputs]
  refine ScriptProgram.declaredInputs_ofJson? ?_ hinputs hread
  rw [hinputs]
  exact hmatches.readable_inputs

end Compile.Parts

end Scriptorium

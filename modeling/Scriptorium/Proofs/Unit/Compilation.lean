import Scriptorium.Proofs.Script.Sound
import Scriptorium.Proofs.Target.Primitive
import Scriptorium.Proofs.Unit.Payload

/-!
# What a compiled script is made of

A script that compiles has been read and checked, and has a unit for itself and
one for each of its expressions, which holds the tree of the target code that
the expression was translated to.
-/

namespace Scriptorium

mutual

/-- The types of the inputs that an instruction with readable names declares have readable names. -/
theorem Instruction.readable_declaredInputs (i : Instruction) (h : i.Readable) :
    ∀ p ∈ i.declaredInputs, p.type.Readable := by
  match i with
  | .declareInput name type =>
    intro p hp
    obtain rfl := List.mem_singleton.mp hp
    exact h
  | .declareLocal name type init => exact nofun
  | .setLocal target value => exact nofun
  | .branch condition thenBranch elseBranch =>
    intro p hp
    rcases List.mem_append.mp hp with hp | hp
    · exact Instruction.readable_allDeclaredInputs thenBranch h.2.2.1 p hp
    · exact Instruction.readable_allDeclaredInputs elseBranch h.2.2.2 p hp

theorem Instruction.readable_allDeclaredInputs (is : List Instruction) (h : Instruction.ReadableItems is) :
    ∀ p ∈ Instruction.allDeclaredInputs is, p.type.Readable := by
  match is with
  | [] => exact nofun
  | i :: rest =>
    intro p hp
    rcases List.mem_append.mp hp with hp | hp
    · exact Instruction.readable_declaredInputs i h.1 p hp
    · exact Instruction.readable_allDeclaredInputs rest h.2 p hp

end

theorem ScriptCheck.Site.readable {types : Registry} {units : List PendingExpression}
    {t : VariableTable} {text : String} {ref : ExprRef} {kind : ResultKind}
    (h : Site types units t text ref kind) (hunits : ∀ e ∈ units, e.name.Readable) :
    ref.name.Readable := by
  obtain ⟨e, he, -, rfl, -⟩ := h
  exact hunits e he

/-- The names in the instructions of a script are readable when those of its units are. -/
theorem ScriptCheck.Matches.readable {types : Registry} {units : List PendingExpression}
    {t t' : VariableTable} {ss : List Statement} {is : List Instruction}
    (h : Matches types units t ss is t') (hunits : ∀ e ∈ units, e.name.Readable) :
    Instruction.ReadableItems is := by
  induction h with
  | nil => exact trivial
  | declareInput _ _ _ _ ih => exact ⟨SemanticType.readable_ofTypeName _, ih⟩
  | declareLocal _ _ _ _ ih => exact ⟨⟨SemanticType.readable_ofTypeName _, nofun⟩, ih⟩
  | initLocal _ _ _ hsite _ _ ih =>
    refine ⟨⟨SemanticType.readable_ofTypeName _, fun ref href => ?_⟩, ih⟩
    obtain rfl := Option.some.inj href
    exact hsite.readable hunits
  | setLocal _ hsite _ _ ih => exact ⟨hsite.readable hunits, ih⟩
  | branch hcondition _ _ _ ih₁ ih₂ ih =>
    obtain ⟨left, right, hleft, hright, -⟩ := hcondition.sites
    exact ⟨⟨hleft.readable hunits, hright.readable hunits, ih₁, ih₂⟩, ih⟩

namespace Compile

theorem targetUnit_eq_ok {name : QualifiedName} {text : String} {source : Option String}
    {u : CompiledUnit} (h : targetUnit name text source = .ok u) :
    ∃ expr, Target.parseTarget text.toList = .ok expr ∧
      u = .ofBody name (.expression expr) source none := by
  unfold targetUnit at h
  cases hparse : Target.parseTarget text.toList with
  | error cause =>
    rw [hparse] at h
    cases h
  | ok expr =>
    rw [hparse] at h
    cases h
    exact ⟨expr, rfl, rfl⟩

theorem targetUnit_eq_error {name : QualifiedName} {text : String} {source : Option String}
    {e : CompileError} (h : targetUnit name text source = .error e) :
    ∃ cause, e = .malformedTarget name cause := by
  unfold targetUnit at h
  split at h
  · next cause _ =>
    cases h
    exact ⟨cause, rfl⟩
  · cases h

/-- The unit of an expression that compiles. -/
theorem expression_eq_ok {types : Registry} {name : QualifiedName} {source : String}
    {t : VariableTable} {u : CompiledUnit}
    (h : (Compile.expression name source t).run types = .ok u) :
    ∃ code expr, (Expression.translate t source).run types = .ok code ∧
      Target.parseTarget code.text.toList = .ok expr ∧
        u = .ofBody name (.expression expr) (some source) none := by
  unfold Compile.expression at h
  cases hname : checkName name with
  | error cause => simp [hname] at h
  | ok =>
    simp only [hname, Inquiry.run_bind] at h
    cases htranslate : (Expression.translate t source).run types with
    | error cause =>
      cases hlookup : cause.lookup? <;> simp [htranslate, hlookup] at h
    | ok code =>
      simp only [htranslate, Inquiry.run_pure] at h
      obtain ⟨expr, hparse, hu⟩ := targetUnit_eq_ok h
      exact ⟨code, expr, rfl, hparse, hu⟩

/-- An expression that translates to a sentence is compiled to the target code of that. -/
theorem expression_of_sentence {types : Registry} {name : QualifiedName} {source : String}
    {t : VariableTable} {s : Sentence} (hname : name.isWellFormed = true)
    (h : (Expression.sentence t source).run types = .ok s) :
    (Compile.expression name source t).run types =
      targetUnit name s.targetCode.text (some source) := by
  have htranslate : (Expression.translate t source).run types = .ok s.targetCode := by
    simp only [Expression.translate, Inquiry.run_bind, h, Inquiry.run_pure]
  simp only [Compile.expression, checkName, hname, if_true, Inquiry.run_bind, htranslate,
    Inquiry.run_pure]

/-- The steps succeed for the members in turn. -/
theorem forall₂_of_mapM {α β ε : Type} {f : α → Except ε β} {as : List α} {bs : List β}
    (h : as.mapM f = .ok bs) : List.Forall₂ (fun a b => f a = .ok b) as bs := by
  induction as generalizing bs with
  | nil =>
    cases h
    exact .nil
  | cons a as ih =>
    rw [List.mapM_cons] at h
    cases hb : f a with
    | error cause =>
      rw [hb] at h
      cases h
    | ok b =>
      cases hbs : as.mapM f with
      | error cause =>
        rw [hb, hbs] at h
        cases h
      | ok bs' =>
        rw [hb, hbs] at h
        cases h
        exact .cons hb (ih hbs)

/-- Either list has a member for each member of the other. -/
theorem mapM_eq_ok {α β ε : Type} {f : α → Except ε β} {as : List α} {bs : List β}
    (h : as.mapM f = .ok bs) :
    (∀ a ∈ as, ∃ b ∈ bs, f a = .ok b) ∧ ∀ b ∈ bs, ∃ a ∈ as, f a = .ok b := by
  have hall := forall₂_of_mapM h
  clear h
  induction hall with
  | nil => exact ⟨nofun, nofun⟩
  | @cons a b as bs hb _ ih =>
    obtain ⟨hforth, hback⟩ := ih
    refine ⟨List.forall_mem_cons.mpr ⟨⟨b, List.mem_cons_self, hb⟩, fun x hx => ?_⟩,
      List.forall_mem_cons.mpr ⟨⟨a, List.mem_cons_self, hb⟩, fun y hy => ?_⟩⟩
    · obtain ⟨y, hy, hxy⟩ := hforth x hx
      exact ⟨y, List.mem_cons_of_mem _ hy, hxy⟩
    · obtain ⟨x, hx, hxy⟩ := hback y hy
      exact ⟨x, List.mem_cons_of_mem _ hx, hxy⟩

/-- A step fails for one of the members. -/
theorem mapM_eq_error {α β ε : Type} {f : α → Except ε β} {as : List α} {e : ε}
    (h : as.mapM f = .error e) : ∃ a ∈ as, f a = .error e := by
  induction as with
  | nil => cases h
  | cons a as ih =>
    rw [List.mapM_cons] at h
    cases hb : f a with
    | error cause =>
      rw [hb] at h
      cases h
      exact ⟨a, List.mem_cons_self, hb⟩
    | ok b =>
      cases hbs : as.mapM f with
      | error cause =>
        rw [hb, hbs] at h
        cases h
        obtain ⟨x, hx, hfails⟩ := ih hbs
        exact ⟨x, List.mem_cons_of_mem _ hx, hfails⟩
      | ok bs =>
        rw [hb, hbs] at h
        cases h

/-- The units of a checked script fail for nothing but their target code. -/
theorem checkedUnits_eq_error {name : QualifiedName} {body : String} {checked : CheckedScript}
    {e : CompileError} (h : checkedUnits name body checked = .error e) :
    ∃ unit cause, e = .malformedTarget unit cause := by
  unfold checkedUnits at h
  cases hunits : checked.expressions.mapM pendingUnit with
  | error cause =>
    rw [hunits] at h
    cases h
    obtain ⟨x, -, hfails⟩ := mapM_eq_error hunits
    obtain ⟨fault, rfl⟩ := targetUnit_eq_error hfails
    exact ⟨_, fault, rfl⟩
  | ok us =>
    rw [hunits] at h
    cases h

/-- The faults of a script that is refused for them are those that the check finds. -/
theorem script_eq_faults {types : Registry} {name : QualifiedName} {body human : String}
    {statements : List Statement} {faults : List ScriptFault}
    (hparse : Script.parseScript body.toList = .ok statements)
    (h : (Compile.script name body).run types = .error (.script human faults)) :
    (ScriptCheck.check name statements).run types = .error faults := by
  unfold Compile.script checkName at h
  by_cases hname : name.isWellFormed = true
  · rw [if_pos hname] at h
    simp only [hparse, Inquiry.run_bind] at h
    cases hcheck : (ScriptCheck.check name statements).run types with
    | error found =>
      simp only [hcheck, Inquiry.run_pure, faultsError, Except.error.injEq] at h
      split at h
      · cases h
      · cases h
        rfl
    | ok checked =>
      simp only [hcheck, Inquiry.run_pure] at h
      obtain ⟨unit, cause, hcause⟩ := checkedUnits_eq_error h
      cases hcause
  · rw [if_neg hname] at h
    cases h

/-- The parts of a script that compiles. -/
structure Parts (types : Registry) (name : QualifiedName) (body : String)
    (c : ScriptCompilation) where
  statements : List Statement
  checked : CheckedScript
  wellFormed : name.isWellFormed = true
  parsed : Script.parseScript body.toList = .ok statements
  check : (ScriptCheck.check name statements).run types = .ok checked
  script : c.script =
    .ofBody name (.script checked.program) (some body) (some checked.program.inputs)
  inputs : c.inputs = checked.program.inputs
  units : checked.expressions.mapM pendingUnit = .ok c.expressions

theorem script_eq_ok {types : Registry} {name : QualifiedName} {body : String}
    {c : ScriptCompilation} (h : (Compile.script name body).run types = .ok c) :
    Nonempty (Parts types name body c) := by
  unfold Compile.script checkName at h
  by_cases hname : name.isWellFormed = true
  · rw [if_pos hname] at h
    cases hparse : Script.parseScript body.toList with
    | error place =>
      simp [hparse] at h
    | ok statements =>
      simp only [hparse, Inquiry.run_bind] at h
      cases hcheck : (ScriptCheck.check name statements).run types with
      | error faults => simp [hcheck] at h
      | ok checked =>
        simp only [hcheck, Inquiry.run_pure, checkedUnits] at h
        cases hunits : checked.expressions.mapM pendingUnit with
        | error cause =>
          rw [hunits] at h
          cases h
        | ok us =>
          rw [hunits] at h
          cases h
          exact ⟨⟨statements, checked, hname, hparse, hcheck, rfl, rfl, hunits⟩⟩
  · rw [if_neg hname] at h
    cases h

namespace Parts

variable {types : Registry} {name : QualifiedName} {body : String} {c : ScriptCompilation}

/-- The unit of an expression holds the tree of the expression's target code. -/
theorem unit_of_mem (p : Parts types name body c) {e : PendingExpression}
    (he : e ∈ p.checked.expressions) :
    ∃ expr, Target.parseTarget e.sentence.targetCode.text.toList = .ok expr ∧
      CompiledUnit.ofBody e.name (.expression expr) (some e.source) none ∈ c.expressions := by
  obtain ⟨u, hu, hunit⟩ := (mapM_eq_ok p.units).1 e he
  obtain ⟨expr, hparse, rfl⟩ := targetUnit_eq_ok hunit
  exact ⟨expr, hparse, hu⟩

theorem mem_of_unit (p : Parts types name body c) {u : CompiledUnit} (hu : u ∈ c.expressions) :
    ∃ e ∈ p.checked.expressions, ∃ expr,
      Target.parseTarget e.sentence.targetCode.text.toList = .ok expr ∧
        u = .ofBody e.name (.expression expr) (some e.source) none := by
  obtain ⟨e, he, hunit⟩ := (mapM_eq_ok p.units).2 u hu
  obtain ⟨expr, hparse, hbody⟩ := targetUnit_eq_ok hunit
  exact ⟨e, he, expr, hparse, hbody⟩

/-- A reference is to one unit, and its text is compiled again to that unit wherever it translates
as it did where it was checked. -/
theorem unit_of_site (p : Parts types name body c) {declared t : VariableTable} {ref : ExprRef}
    {kind : ResultKind}
    (hsite : ScriptCheck.Site types p.checked.expressions declared ref.source ref kind)
    (htranslates : ∀ s, (Expression.sentence declared ref.source).run types = .ok s →
      (Expression.sentence t ref.source).run types = .ok s) :
    ∃ u ∈ c.expressions, u.name = ref.name ∧ (∀ v ∈ c.expressions, v.name = ref.name → v = u) ∧
      (Compile.expression ref.name ref.source t).run types = .ok u := by
  obtain ⟨x, hx, -, rfl, -, hsentence⟩ := hsite
  obtain ⟨-, -, hunits⟩ := ScriptCheck.check_matches p.check
  obtain ⟨tree, hparse, hmem⟩ := p.unit_of_mem hx
  have hwell : x.ref.name.isWellFormed = true :=
    ScriptCheck.check_wellFormed p.wellFormed p.check x hx
  refine ⟨_, hmem, rfl, fun v hv hname => ?_, ?_⟩
  · obtain ⟨y, hy, tree', hparse', rfl⟩ := p.mem_of_unit hv
    obtain rfl : y = x := (hunits y hy).2 x hx hname
    rw [hparse] at hparse'
    cases hparse'
    rfl
  · rw [expression_of_sentence hwell (htranslates _ hsentence), targetUnit, hparse]
    rfl

/-- The text of an expression is compiled again to the unit of its name, over any variables that
have the declarations against which it was checked. -/
theorem recompile (p : Parts types name body c) {declared t : VariableTable}
    (hwithin : declared.Within t) {ref : ExprRef} {kind : ResultKind}
    (hsite : ScriptCheck.Site types p.checked.expressions declared ref.source ref kind)
    {u : CompiledUnit} (hu : u ∈ c.expressions) (hname : u.name = ref.name) :
    (Compile.expression ref.name ref.source t).run types = .ok u := by
  obtain ⟨v, -, -, honly, hcompile⟩ :=
    p.unit_of_site hsite fun _ hsentence => Expression.sentence_within hwithin hsentence
  rwa [honly u hu hname]

/-- The names in the script's unit are readable when those of its expressions are. -/
theorem script_readable (p : Parts types name body c)
    (hname : ∀ d, (name.expression d).Readable) :
    (UnitBody.script p.checked.program).Readable := by
  obtain ⟨⟨t, hmatches⟩, hinputs, hunits⟩ := ScriptCheck.check_matches p.check
  have hreadable : ∀ e ∈ p.checked.expressions, e.name.Readable := by
    intro e he
    obtain ⟨⟨d, hd⟩, -⟩ := hunits e he
    rw [hd]
    exact hname d
  have hstatements := hmatches.readable hreadable
  refine ⟨?_, hstatements⟩
  rw [hinputs]
  exact Instruction.readable_allDeclaredInputs _ hstatements

end Parts

end Compile

end Scriptorium

import Scriptorium.Proofs.Run.Scope
import Scriptorium.Proofs.Run.Simulation
import Scriptorium.Proofs.Target.Soundness
import Scriptorium.Proofs.Unit.Loading

/-!
# Compiled scripts do not go wrong

A run of a compiled script keeps its table sound and in agreement with the
declarations above the place that it has reached. So an instruction fails only
for reasons that lie in the input values, in nulls, bounds and overflows, in a
reference to a value of another type, or in a declaration that the run has
passed over.
-/

namespace Scriptorium

open ScriptCheck (Site Tests Matches targetType?)

namespace Engine

section Failures

variable {σ : Type} [CodeRepository σ]

/-- The unit of the expression is one that refers to a record, an array or an element. -/
def YieldsReference (e : Engine σ) (ref : ExprRef) : Prop :=
  ∃ u tree, e.fast.get? ref.name = some u ∧ u.body = .expression tree ∧ tree.kind = .reference

/-- The failures to which an instruction of a compiled script may come over these variables, in the
run that began in this state. -/
inductive ExpectedFailure (e : Engine σ) (start : Progress) :
    Instruction → VariableTable → ExecutionError → Prop
  | missingInput {name : String} {type : SemanticType} {t : VariableTable} (h : t.pending = []) :
    ExpectedFailure e start (.declareInput name type) t (.binding (.missingInput name))
  | inputRejected {name : String} {type : SemanticType} {t : VariableTable} {v : Value}
    {rest : List Value} {cause : CoercionError} (h : t.pending = v :: rest)
    (hcoerce : type.coerce v = .error cause) :
    ExpectedFailure e start (.declareInput name type) t (.binding (.invalidValue name cause))
  | evaluation {i : Instruction} {t : VariableTable} {source : String} {cause : EvalError}
    (h : cause.Expected (e.PassedOver start)) :
    ExpectedFailure e start i t (.evaluation source cause)
  | initRejected {name : String} {type : SemanticType} {ref : ExprRef} {t : VariableTable}
    {v : Value} {cause : CoercionError} (href : e.YieldsReference ref)
    (hvalue : (e.evaluate ref t).1 = .ok v) (hcoerce : type.coerce v = .error cause) :
    ExpectedFailure e start (.declareLocal name type (some ref)) t
      (.binding (.invalidValue name cause))
  | assignRejected {target path : String} {ref : ExprRef} {t : VariableTable} {v : Value}
    {type : SemanticType} {cause : CoercionError} (href : e.YieldsReference ref)
    (hvalue : (e.evaluate ref t).1 = .ok v) (htarget : targetType? e.types t target = some type)
    (hcoerce : type.coerce v = .error cause) :
    ExpectedFailure e start (.setLocal target ref) t (.binding (.invalidValue path cause))
  | notDeclared {target : String} {ref : ExprRef} {t : VariableTable}
    (h : e.PassedOver start (Text.pieces '.' target).1) :
    ExpectedFailure e start (.setLocal target ref) t
      (.binding (.notDeclared (Text.pieces '.' target).1))

/-- The run comes to an instruction that fails, as may be expected. -/
def FailsAsExpected (e : Engine σ) (start : Progress) : Prop :=
  ∃ i rest t cause, Reaches e start e ⟨i :: rest, t⟩ ∧
    e.advance i rest t = (.error cause, e) ∧ ExpectedFailure e start i t cause

end Failures

variable {e : Engine NoRepository} {types : Registry} {units : List PendingExpression}
  {start : Progress} {declared declared' t : VariableTable}

/-- A reference is evaluated to a sound value of its kind, or fails as expected. -/
theorem evaluate_safe (hholds : e.Holds units) {passed : String → Prop} {ref : ExprRef}
    {kind : ResultKind} (hsite : Site types units declared ref.source ref kind)
    (hagrees : declared.Agrees passed t) (hsound : t.Sound types) :
    (kind = .reference → e.YieldsReference ref) ∧
      ∃ outcome, e.evaluate ref t = (outcome.mapError (.evaluation ref.source), e) ∧
        Evaluate.Safe passed (fun v => v.HasKind kind ∧ v.Sound types) outcome := by
  obtain ⟨x, hx, -, rfl, rfl, hsentence⟩ := hsite
  obtain ⟨tree, u, hparse, hget, hbody⟩ := hholds x hx
  obtain ⟨hkind, htyped⟩ := Expression.sentence_typed hsentence hparse
  constructor
  · intro href
    exact ⟨u, tree.reread, hget, hbody, hkind.trans href⟩
  · exact ⟨_, evaluate_cached hget hbody t, Evaluate.node_safe hsound hagrees htyped.reread⟩

/-- A condition is decided, or one of its sides fails as expected. -/
theorem test_safe (hholds : e.Holds units) {passed : String → Prop} {c : Call}
    {condition : Condition} (htests : Tests types units declared c condition)
    (hagrees : declared.Agrees passed t) (hsound : t.Sound types) :
    (∃ chosen, e.test condition t = (.ok chosen, e)) ∨
      ∃ source cause, e.test condition t = (.error (.evaluation source cause), e) ∧
        cause.Expected passed := by
  obtain ⟨left, right, hleft, hright, hcomparable⟩ := htests.sites
  obtain ⟨-, outcome, heval, hsafe⟩ := evaluate_safe hholds hleft hagrees hsound
  obtain ⟨-, outcome', heval', hsafe'⟩ := evaluate_safe hholds hright hagrees hsound
  unfold test
  cases outcome with
  | error cause =>
    rw [heval]
    exact .inr ⟨_, cause, rfl, hsafe⟩
  | ok a =>
    have heval : e.evaluate condition.left t = (.ok a, e) := heval
    cases outcome' with
    | error cause =>
      simp only [heval, heval']
      exact .inr ⟨_, cause, rfl, hsafe'⟩
    | ok b =>
      have heval' : e.evaluate condition.right t = (.ok b, e) := heval'
      left
      have hdecided : ∃ chosen, compareValues condition a b = .ok chosen := by
        unfold compareValues
        cases hcomparison : condition.comparison with
        | equal => exact ⟨_, rfl⟩
        | lessOrEqual =>
          rw [hcomparison] at hcomparable
          obtain ⟨order, horder⟩ :=
            Value.compare?_of_comparable hcomparable hsafe.1 hsafe'.1 hsafe.2 hsafe'.2
          simp only [horder]
          exact ⟨_, rfl⟩
      obtain ⟨chosen, hchosen⟩ := hdecided
      refine ⟨chosen, ?_⟩
      simp only [heval, heval', hchosen]

/-- The table is sound and has what is declared, but for declarations that the run has passed
over. -/
structure OnCourse (e : Engine NoRepository) (types : Registry) (start : Progress)
    (declared t : VariableTable) : Prop where
  agrees : declared.Agrees (e.PassedOver start) t
  sound : t.Sound types

/-- The run comes to the state with these instructions left, on course, or fails as expected. -/
def ComesTo (e : Engine NoRepository) (types : Registry) (start : Progress)
    (declared : VariableTable) (rest : List Instruction) : Prop :=
  (∃ t, Reaches e start e ⟨rest, t⟩ ∧ e.OnCourse types start declared t) ∨ e.FailsAsExpected start

theorem declareInput_comesTo {name : String} {type : SemanticType} {rest : List Instruction}
    (hreach : Reaches e start e ⟨.declareInput name type :: rest, t⟩)
    (hcourse : e.OnCourse types start declared t) (hfresh : declared.namespace? name = none) :
    e.ComesTo types start (declared.addInput name ⟨type, .null⟩) rest := by
  have hfresh' := hcourse.agrees.fresh hfresh
  rcases VariableTable.bindInput_cases hcourse.sound hfresh' type with
    ⟨v, pending, hfits, hv, hpending, hbind⟩ | ⟨hpending, hbind⟩ |
    ⟨v, queue, cause, hpending, hcoerce, hbind⟩
  · left
    refine ⟨{ t.addInput name ⟨type, v⟩ with pending }, hreach.step ?_, ?_, ?_⟩
    · simp only [advance, hbind]
      rfl
    · have hagrees := hcourse.agrees.addInput hfresh (v := ⟨type, v⟩) (w := ⟨type, .null⟩) rfl
      exact ⟨hagrees.disjoint, hagrees.inputs, hagrees.locals, hagrees.missingInputs,
        hagrees.missingLocals⟩
    · have hsound := hcourse.sound.addInput name (v := ⟨type, v⟩) ⟨hfits, hv⟩
      exact ⟨hsound.inputs, hsound.locals, hpending⟩
  · right
    refine ⟨_, rest, t, _, hreach, ?_, .missingInput hpending⟩
    simp only [advance, hbind]
    rfl
  · right
    refine ⟨_, rest, t, _, hreach, ?_, .inputRejected hpending hcoerce⟩
    have hfailed : onVariables (t.bindInput name type) = .error (.binding (.invalidValue name cause)) := by
      rcases hresult : t.bindInput name type with ⟨outcome, t'⟩
      rw [hresult] at hbind
      cases hbind
      rfl
    simp only [advance, hfailed]
    rfl

theorem declareLocal_comesTo {name : String} {type : SemanticType} {rest : List Instruction}
    (hreach : Reaches e start e ⟨.declareLocal name type none :: rest, t⟩)
    (hcourse : e.OnCourse types start declared t) (hfresh : declared.namespace? name = none) :
    e.ComesTo types start (declared.setLocal name ⟨type, .null⟩) rest := by
  have hfresh' := hcourse.agrees.fresh hfresh
  left
  refine ⟨t.setLocal name ⟨type, .null⟩, hreach.step ?_, ?_, ?_⟩
  · simp only [advance, declareLocal, VariableTable.declareLocal, hfresh']
    rfl
  · exact hcourse.agrees.addLocal hfresh rfl
  · exact hcourse.sound.setLocal name ⟨Value.null_fits type, .null⟩

/-- A value that coercion refuses although its kind is accepted comes from a reference. -/
theorem reference_of_refused {type : SemanticType} {kind : ResultKind} {v : Value}
    {cause : CoercionError} (haccepts : type.accepts kind = true) (hkind : v.HasKind kind)
    (hcoerce : type.coerce v = .error cause) : kind = .reference := by
  rcases SemanticType.coerce_of_accepts haccepts hkind with href | ⟨w, hw⟩
  · exact href
  · rw [SemanticType.coerce_eq_ok.mpr hw] at hcoerce
    cases hcoerce

theorem initLocal_comesTo (hholds : e.Holds units) {name : String} {type : SemanticType}
    {ref : ExprRef} {kind : ResultKind} {rest : List Instruction}
    (hreach : Reaches e start e ⟨.declareLocal name type (some ref) :: rest, t⟩)
    (hcourse : e.OnCourse types start declared t) (hfresh : declared.namespace? name = none)
    (hsite : Site types units declared ref.source ref kind)
    (haccepts : type.accepts kind = true) :
    e.ComesTo types start (declared.setLocal name ⟨type, .null⟩) rest := by
  have hfresh' := hcourse.agrees.fresh hfresh
  obtain ⟨href, outcome, heval, hsafe⟩ := evaluate_safe hholds hsite hcourse.agrees hcourse.sound
  have hdeclare : t.declareLocal name type = (.ok (), t.setLocal name ⟨type, .null⟩) := by
    simp only [VariableTable.declareLocal, hfresh']
    rfl
  cases outcome with
  | error cause =>
    right
    refine ⟨_, rest, t, .evaluation ref.source cause, hreach, ?_, .evaluation hsafe⟩
    simp only [advance, declareLocal, heval]
    rfl
  | ok value =>
    have heval : e.evaluate ref t = (.ok value, e) := heval
    obtain ⟨hkind, hvalue⟩ := hsafe
    have hget : (t.setLocal name ⟨type, .null⟩).locals.get? name = some ⟨type, .null⟩ :=
      Dictionary.get?_insert_self _ _ _
    rcases VariableTable.assign_cases hget hvalue with
      ⟨w, -, hfits, hw, hassign⟩ | ⟨cause, hcoerce, hassign⟩
    · left
      refine ⟨(t.setLocal name ⟨type, .null⟩).setLocal name ⟨type, w⟩, hreach.step ?_, ?_, ?_⟩
      · simp only [advance, declareLocal, heval, hdeclare, onVariables, hassign]
        rfl
      · exact (hcourse.agrees.addLocal hfresh rfl).update hget rfl
      · exact (hcourse.sound.setLocal name ⟨Value.null_fits type, .null⟩).setLocal name ⟨hfits, hw⟩
    · right
      have hkind := reference_of_refused haccepts hkind hcoerce
      refine ⟨_, rest, t, _, hreach, ?_, .initRejected (href hkind) ?_ hcoerce⟩
      · rcases hresult : (t.setLocal name ⟨type, .null⟩).assign name value with ⟨outcome, t'⟩
        rw [hresult] at hassign
        cases hassign
        simp only [advance, declareLocal, heval, hdeclare, onVariables, hresult]
        rfl
      · rw [heval]

theorem setLocal_comesTo (hbare : e.Bare) (htypes : e.types = types) (hnamed : types.Named)
    (hholds : e.Holds units) {target : String} {ref : ExprRef} {kind : ResultKind}
    {type : SemanticType} {rest : List Instruction}
    (hreach : Reaches e start e ⟨.setLocal target ref :: rest, t⟩)
    (hcourse : e.OnCourse types start declared t)
    (htarget : targetType? types declared target = some type)
    (hsite : Site types units declared ref.source ref kind)
    (haccepts : type.accepts kind = true) : e.ComesTo types start declared rest := by
  obtain ⟨href, outcome, heval, hsafe⟩ := evaluate_safe hholds hsite hcourse.agrees hcourse.sound
  obtain ⟨w, hw, htype⟩ := Option.bind_eq_some_iff.mp htarget
  cases outcome with
  | error cause =>
    right
    refine ⟨_, rest, t, .evaluation ref.source cause, hreach, ?_, .evaluation hsafe⟩
    simp only [advance, setLocal, heval]
    rfl
  | ok value =>
    have heval : e.evaluate ref t = (.ok value, e) := heval
    obtain ⟨hkind, hvalue⟩ := hsafe
    have hadvance : e.advance (.setLocal target ref) rest t =
        resume rest (onVariables ((t.assignPath target value).run types), e) := by
      simp only [advance, setLocal, heval, hbare.inquire, htypes]
    cases hget : t.locals.get? (Text.pieces '.' target).1 with
    | none =>
      right
      have hpassed := hcourse.agrees.missingLocals _ w hw hget
      refine ⟨_, rest, t, _, hreach, ?_, .notDeclared hpassed⟩
      rw [hadvance, VariableTable.assignPath_missing hget]
      rfl
    | some v =>
      obtain ⟨w', hw', hsame⟩ := hcourse.agrees.locals _ v hget
      obtain rfl : w = w' := Option.some.inj (hw.symm.trans hw')
      rw [hsame] at htype
      rcases VariableTable.assignPath_cases hnamed hcourse.sound hget htype hvalue with
        ⟨u, hfits, hu, hassign⟩ | ⟨path, cause, hcoerce, hassign⟩
      · left
        refine ⟨t.setLocal (Text.pieces '.' target).1 ⟨v.type, u⟩, hreach.step ?_, ?_, ?_⟩
        · rw [hadvance, hassign]
          rfl
        · exact hcourse.agrees.update hget rfl
        · exact hcourse.sound.setLocal _ ⟨hfits, hu⟩
      · right
        have hkind := reference_of_refused haccepts hkind hcoerce
        have hreached : targetType? e.types t target = some type := by
          rw [htypes]
          exact Option.bind_eq_some_iff.mpr ⟨v, hget, htype⟩
        refine ⟨_, rest, t, .binding (.invalidValue path cause), hreach, ?_,
          .assignRejected (href hkind) ?_ hreached hcoerce⟩
        · rcases hresult : (t.assignPath target value).run types with ⟨outcome, t'⟩
          rw [hresult] at hassign
          cases hassign
          rw [hadvance, hresult]
          rfl
        · rw [heval]

/-- A condition lets a run into one side of a branch, and declarations on the other side are passed
over. -/
theorem branch_comesTo (hholds : e.Holds units) {declared₁ declared₂ : VariableTable} {c : Call}
    {condition : Condition} {thenBranch elseBranch : List Statement}
    {is₁ is₂ rest : List Instruction}
    (hreach : Reaches e start e ⟨.branch condition is₁ is₂ :: rest, t⟩)
    (hcourse : e.OnCourse types start declared t) (htests : Tests types units declared c condition)
    (hthen : Matches types units declared thenBranch is₁ declared₁)
    (helse : Matches types units declared₁ elseBranch is₂ declared₂)
    (hfirst : e.ComesTo types start declared (is₁ ++ rest) → e.ComesTo types start declared₁ rest)
    (hsecond : e.ComesTo types start declared₁ (is₂ ++ rest) →
      e.ComesTo types start declared₂ rest) : e.ComesTo types start declared₂ rest := by
  rcases test_safe hholds htests hcourse.agrees hcourse.sound with
    ⟨chosen, htest⟩ | ⟨source, cause, htest, hexpected⟩
  · cases chosen with
    | true =>
      have hstep : Reaches e start e ⟨is₁ ++ rest, t⟩ := hreach.step (by simp only [advance, htest])
      rcases hfirst (.inl ⟨t, hstep, hcourse⟩) with ⟨t', hreach', hcourse'⟩ | hfails
      · have hpassed := (matches_extends helse).mono fun name hd =>
          PassedOver.elseBranch hreach htest hd
        exact .inl ⟨t', hreach', hcourse'.agrees.pass hpassed, hcourse'.sound⟩
      · exact .inr hfails
    | false =>
      have hstep : Reaches e start e ⟨is₂ ++ rest, t⟩ := hreach.step (by simp only [advance, htest])
      have hpassed := (matches_extends hthen).mono fun name hd =>
        PassedOver.thenBranch hreach htest hd
      exact hsecond (.inl ⟨t, hstep, hcourse.agrees.pass hpassed, hcourse.sound⟩)
  · right
    refine ⟨_, rest, t, .evaluation source cause, hreach, ?_, .evaluation hexpected⟩
    simp only [advance, htest]

/-- A run on course stays so through the instructions of checked statements, or fails as
expected. -/
theorem comesTo_matches (hbare : e.Bare) (htypes : e.types = types) (hnamed : types.Named)
    (hholds : e.Holds units) {ss : List Statement} {is : List Instruction}
    (h : Matches types units declared ss is declared') (rest : List Instruction)
    (hcomes : e.ComesTo types start declared (is ++ rest)) :
    e.ComesTo types start declared' rest := by
  induction h generalizing rest with
  | nil => exact hcomes
  | declareInput hname hknown hfresh k ih =>
    rcases hcomes with ⟨t, hreach, hcourse⟩ | hfails
    · exact ih rest (declareInput_comesTo hreach hcourse hfresh)
    · exact .inr hfails
  | declareLocal hname hknown hfresh k ih =>
    rcases hcomes with ⟨t, hreach, hcourse⟩ | hfails
    · exact ih rest (declareLocal_comesTo hreach hcourse hfresh)
    · exact .inr hfails
  | initLocal hname hknown hfresh hsite haccepts k ih =>
    rcases hcomes with ⟨t, hreach, hcourse⟩ | hfails
    · exact ih rest (initLocal_comesTo hholds hreach hcourse hfresh hsite haccepts)
    · exact .inr hfails
  | setLocal htarget hsite haccepts k ih =>
    rcases hcomes with ⟨t, hreach, hcourse⟩ | hfails
    · exact ih rest
        (setLocal_comesTo hbare htypes hnamed hholds hreach hcourse htarget hsite haccepts)
    · exact .inr hfails
  | branch hcondition hthen helse k ih₁ ih₂ ih =>
    rcases hcomes with ⟨t, hreach, hcourse⟩ | hfails
    · exact ih rest
        (branch_comesTo hholds hreach hcourse hcondition hthen helse (ih₁ _) (ih₂ _))
    · exact .inr hfails

/-- Every registered record type is found under its own name. -/
theorem Registered.named (hreg : e.Registered) (hbare : e.Bare) : e.types.Named := by
  intro name t ht
  rw [hbare.types_eq, Except.ok.injEq] at ht
  obtain ⟨u, hu, hbody⟩ := Option.bind_eq_some_iff.mp ht
  obtain ⟨-, t', hrecord, hname, -⟩ := hreg name u hu
  rw [hrecord] at hbody
  obtain rfl : t' = t := Option.some.inj hbody
  exact hname

/-- A run of a script that compiles is completed, or comes to an instruction whose failure is one of
those to be expected. -/
theorem execute_sound {defs : List (QualifiedName × String)} {name : QualifiedName}
    {body : String} {c : ScriptCompilation} (hname : ∀ d, (name.expression d).Readable)
    (hcompile : (Compile.script name body).run (standalone.defining defs).types = .ok c)
    (hload : ∀ u ∈ c.units, ∃ loaded, u.load = .ok loaded) {inputs : List Value}
    (hinputs : ∀ v ∈ inputs, v.isPlain = true) :
    ∃ (u : ReadyUnit) (program : ScriptProgram) (e : Engine NoRepository),
      (standalone.defining defs).getExecutable name (some (.script body)) = (.ok u, e) ∧
      u.body = .script program ∧
      ((∃ t, ((standalone.defining defs).execute name (some (.script body)) inputs).1 = .ok t) ∨
        ∃ i rest t cause,
          ((standalone.defining defs).execute name (some (.script body)) inputs).1 = .error cause ∧
          Reaches e ⟨program.statements, .withInputs inputs⟩ e ⟨i :: rest, t⟩ ∧
          e.advance i rest t = (.error cause, e) ∧
          ExpectedFailure e ⟨program.statements, .withInputs inputs⟩ i t cause) := by
  obtain ⟨hbare, hreg⟩ := registered_defining defs bare_standalone registered_standalone
  have hnamed := hreg.named hbare
  generalize standalone.defining defs = e₀ at *
  obtain ⟨p, u, e, hget, hbody, hbare', htypes, hholds⟩ :=
    getExecutable_script hbare hreg hname hcompile hload
  obtain ⟨⟨declared, hmatches⟩, -, -⟩ := ScriptCheck.check_matches p.check
  refine ⟨u, p.checked.program, e, hget, hbody, ?_⟩
  have hrun : e₀.execute name (some (.script body)) inputs =
      e.finish ⟨p.checked.program.statements, .withInputs inputs⟩ := by
    simp only [execute, hget, hbody, UnitBody.script?]
  generalize hstart : Progress.mk p.checked.program.statements (.withInputs inputs) = start at *
  have hcourse : e.OnCourse e₀.types start .empty (.withInputs inputs) :=
    ⟨.start _ inputs, .empty_inputs fun v hv => Value.sound_of_isPlain _ v (hinputs v hv)⟩
  have hcomes : e.ComesTo e₀.types start .empty (p.checked.program.statements ++ []) := by
    rw [List.append_nil]
    exact .inl ⟨_, hstart ▸ .refl e start, hcourse⟩
  rw [hrun]
  rcases comesTo_matches hbare' htypes hnamed hholds hmatches [] hcomes with
    ⟨t, hreach, -⟩ | ⟨i, rest, t, cause, hreach, hadvance, hexpected⟩
  · left
    exact ⟨t, by rw [hreach.finish_eq, finish_nil]⟩
  · right
    refine ⟨i, rest, t, cause, ?_, hreach, hadvance, hexpected⟩
    rw [hreach.finish_eq, finish_cons, hadvance]

/-- A script that declares a local inside a branch and assigns it behind the branch. -/
def guarded : String :=
  "DeclareInputVar(\"N\", \"Integer\");\n" ++
    "if (LessOrEqualCondition(\"N\", \"0\")) \x7b DeclareLocalVar(\"M\", \"Integer\", \"N\"); \x7d\n" ++
    "SetLocalVar(\"M\", \"N / 2\");"

theorem execute_sound_guarded :
    ∃ c, (Compile.script (.script "Guard") guarded).run (standalone.defining []).types = .ok c ∧
      (∀ u ∈ c.units, ∃ loaded, u.load = .ok loaded) ∧
      ∃ (u : ReadyUnit) (program : ScriptProgram) (e : Engine NoRepository),
        (standalone.defining []).getExecutable (.script "Guard") (some (.script guarded)) =
          (.ok u, e) ∧
        u.body = .script program ∧
        ((∃ t, ((standalone.defining []).execute (.script "Guard") (some (.script guarded))
            [.string "5"]).1 = .ok t) ∨
          ∃ i rest t cause,
            ((standalone.defining []).execute (.script "Guard") (some (.script guarded))
              [.string "5"]).1 = .error cause ∧
            Reaches e ⟨program.statements, .withInputs [.string "5"]⟩ e ⟨i :: rest, t⟩ ∧
            e.advance i rest t = (.error cause, e) ∧
            ExpectedFailure e ⟨program.statements, .withInputs [.string "5"]⟩ i t cause) := by
  have hcompiles : ((Compile.script (.script "Guard") guarded).run
      (standalone.defining []).types).toOption.isSome = true := by decide +kernel
  have hloads : Compile.scriptLoads (standalone.defining []).types (.script "Guard") guarded =
      true := by decide +kernel
  obtain ⟨c, hcompile, hload⟩ := Compile.exists_of_scriptLoads hcompiles hloads
  exact ⟨c, hcompile, hload, execute_sound (QualifiedName.readable_script "Guard") hcompile hload
    (by decide)⟩

end Engine

end Scriptorium

import Mathlib.Data.List.Basic
import Scriptorium.Proofs.Script.Occurrences
import Scriptorium.Proofs.Script.Sound

/-!
# What the check has met

Whatever faults a script has, the check comes past all its expressions, in the
order in which they occur. It translates each text once, against the
declarations in front of the text's first occurrence: a translation that succeeds
becomes an expression of the script, and one that does not becomes a fault.
-/

namespace Scriptorium

/-- The expression behind a fault, with the error of its translation. -/
def ScriptFault.untranslated? : ScriptFault → Option (String × TranslationError)
  | .expression source cause => some (source, cause)
  | _ => none

namespace ScriptCheck

open Interpretation (textsOfCall)

variable {α β : Type} {types : Registry} {script : QualifiedName} {s : ScriptCheck}
  {t t' : VariableTable} {os os' visited : List Occurrence}

/-- The expressions that have been met, and what has become of them. -/
structure Walked (types : Registry) (visited : List Occurrence) (s : ScriptCheck) : Prop where
  seen : ∀ text, s.seen.get? text = none ↔ text ∉ visited.map (·.text)
  expressions : s.expressions.map (fun e => (e.source, e.sentence)) =
    (Occurrence.firsts visited).filterMap (·.translated? types)
  faults : s.faults.filterMap (·.untranslated?) =
    (Occurrence.firsts visited).filterMap (·.untranslated? types)

theorem walked_start : Walked types [] start where
  seen _ := ⟨fun _ => nofun, fun _ => rfl⟩
  expressions := rfl
  faults := rfl

/-- Where there are no faults, the expressions are those of the first occurrences. -/
theorem Walked.sources (h : Walked types visited s) (hclean : s.faults = []) :
    s.expressions.map (·.source) = (Occurrence.firsts visited).map (·.text) := by
  have hfaults := h.faults
  rw [hclean] at hfaults
  have htranslated : ∀ o ∈ Occurrence.firsts visited,
      (o.translated? types).map Prod.fst = some o.text := by
    intro o ho
    have hnone := List.filterMap_eq_nil_iff.mp hfaults.symm o ho
    unfold Occurrence.untranslated? at hnone
    unfold Occurrence.translated?
    cases hsentence : (Expression.sentence o.scope o.text).run types with
    | error cause =>
      rw [hsentence] at hnone
      cases hnone
    | ok sentence => rfl
  calc s.expressions.map (·.source)
      = (s.expressions.map fun e => (e.source, e.sentence)).map Prod.fst := by
        rw [List.map_map]
        rfl
    _ = (Occurrence.firsts visited).filterMap fun o => (o.translated? types).map Prod.fst := by
        rw [h.expressions, List.map_filterMap]
    _ = (Occurrence.firsts visited).map (·.text) :=
        List.filterMap_eq_map_iff_forall_eq_some.mpr htranslated

/-- The step leads past these expressions, and to this table. -/
structure Walks (types : Registry) (x : Checking α) (s : ScriptCheck) (os : List Occurrence)
    (t : VariableTable) : Prop where
  table : (eval types x s).2.table = t
  walked : ∀ visited, Walked types visited s → Walked types (visited ++ os) (eval types x s).2

theorem Walks.bind {x : Checking α} {f : α → Checking β} (h : Walks types x s os t)
    (k : Walks types (f (eval types x s).1) (eval types x s).2 os' t') :
    Walks types (x >>= f) s (os ++ os') t' where
  table := by
    rw [eval_bind]
    exact k.table
  walked visited hvisited := by
    rw [eval_bind, ← List.append_assoc]
    exact k.walked _ (h.walked visited hvisited)

/-- What follows a step depends on the table that the step leads to. -/
theorem Walks.andThen {x : Checking α} {f : α → Checking β} (h : Walks types x s os t)
    (k : ∀ a s', s'.table = t → Walks types (f a) s' os' t') :
    Walks types (x >>= f) s (os ++ os') t' :=
  h.bind (k _ _ h.table)

/-- A step that adds no expression and no fault of one. -/
theorem Walks.of_kept {x : Checking α}
    (hexpressions : (eval types x s).2.expressions = s.expressions)
    (hseen : (eval types x s).2.seen = s.seen)
    (hfaults : (eval types x s).2.faults.filterMap (·.untranslated?) =
      s.faults.filterMap (·.untranslated?)) :
    Walks types x s [] (eval types x s).2.table where
  table := rfl
  walked visited h := by
    rw [List.append_nil]
    exact ⟨hseen ▸ h.seen, hexpressions ▸ h.expressions, hfaults ▸ h.faults⟩

/-- A plain fault is not that of an expression. -/
theorem Plain.untranslated? {f : ScriptFault} (h : Plain f) : f.untranslated? = none := by
  cases f with
  | expression source cause => cases h.translation?
  | _ => rfl

/-! ## Steps that meet no expression -/

/-- Wherever the step is made, it leads past no expression and changes no declaration. -/
def Quiet (types : Registry) (x : Checking α) : Prop := ∀ s, Walks types x s [] s.table

theorem Quiet.pure (a : α) : Quiet types (pure a : Checking α) := fun _ => .of_kept rfl rfl rfl

theorem Quiet.bind {x : Checking α} {f : α → Checking β} (h : Quiet types x)
    (k : ∀ a, Quiet types (f a)) : Quiet types (x >>= f) := by
  intro s
  have hrest := k (eval types x s).1 (eval types x s).2
  rw [(h s).table] at hrest
  exact (h s).bind hrest

theorem Quiet.fault {f : ScriptFault} (h : f.untranslated? = none) : Quiet types (fault f) := by
  refine fun s => .of_kept rfl rfl ?_
  rw [eval_fault, List.filterMap_append, List.filterMap_cons_none h, List.filterMap_nil,
    List.append_nil]

theorem Quiet.recordType? (name : QualifiedName) : Quiet types (recordType? name) := by
  refine Quiet.bind (fun s => .of_kept rfl rfl rfl) fun found => ?_
  cases found with
  | ok found => exact .pure _
  | error cause => exact Quiet.bind (.fault rfl) fun _ => .pure _

/-- The steps that neither declare a variable nor translate an expression. -/
theorem quiet : Sequential fun _ x => Quiet types x where
  pure := Quiet.pure
  bind := Quiet.bind
  get _ := .of_kept rfl rfl rfl
  fault _ h := .fault h.untranslated?
  recordType? := Quiet.recordType?

theorem Quiet.then_walks {x : Checking α} {f : α → Checking β} (h : Quiet types x)
    (k : ∀ s', s'.table = s.table → Walks types (f (eval types x s).1) s' os t) :
    Walks types (x >>= f) s os t :=
  (h s).bind (k _ (h s).table)

/-- What follows a step meets no expression. -/
theorem Walks.then {x : Checking α} {f : α → Checking β} (h : Walks types x s os t)
    (k : ∀ a s', s'.table = t → Walks types (f a) s' [] t') : Walks types (x >>= f) s os t' := by
  rw [← List.append_nil os]
  exact h.andThen k

theorem Walks.then_quiet {x : Checking α} {f : α → Checking β} (h : Walks types x s os t)
    (k : ∀ a, Quiet types (f a)) : Walks types (x >>= f) s os t :=
  h.then fun a s' htable => htable ▸ k a s'

/-! ## Declarations -/

section Declarations

variable {name typeName : String} {type : SemanticType}

theorem extend_input (hname : Text.isIdentifier name.toList = true) (hknown : type.Known types)
    (t : VariableTable) : t.extend types ⟨.input, name, type⟩ = (t.declareInput name type).2 := by
  unfold VariableTable.extend VariableTable.declareInput
  cases hspace : t.namespace? name <;> simp [hname, hknown, VariableTable.addInput]

theorem extend_local (hname : Text.isIdentifier name.toList = true) (hknown : type.Known types)
    (t : VariableTable) : t.extend types ⟨.local, name, type⟩ = (t.declareLocal name type).2 := by
  unfold VariableTable.extend VariableTable.declareLocal
  cases hspace : t.namespace? name <;> simp [hname, hknown, VariableTable.setLocal]

theorem extend_refused {d : Declaration}
    (h : ¬ (Text.isIdentifier d.name.toList = true ∧ d.type.Known types)) (t : VariableTable) :
    t.extend types d = t :=
  if_neg fun k => h ⟨k.1, k.2.1⟩

/-- A declaration has its type when its name and its type are admitted. -/
theorem eval_variableType (name typeName : String) (s : ScriptCheck) :
    (eval types (variableType name typeName) s).1 =
      if Text.isIdentifier name.toList = true ∧ (SemanticType.ofTypeName typeName).Known types then
        some (.ofTypeName typeName) else none := by
  unfold variableType
  by_cases hname : Text.isIdentifier name.toList = true
  · simp only [hname, Bool.not_true, Bool.false_eq_true, if_false, true_and]
    cases htype : SemanticType.ofTypeName typeName with
    | primitive kind => exact (if_pos trivial).symm
    | array => exact (if_pos trivial).symm
    | record record =>
      simp only [recordType?, eval_bind, eval_lift, Inquiry.run_lookup]
      have hknown : (SemanticType.record record).Known types ↔ ∃ t, types record = .ok (some t) :=
        .rfl
      rcases hfound : types record with cause | _ | found <;> simp [hknown, hfound]
  · simp [hname]

theorem eval_declare (operation : VariableTable → TableOutcome) (s : ScriptCheck) :
    eval types (declare operation) s =
      match operation s.table with
      | (.ok (), table) => (true, { s with table })
      | (.error cause, table) =>
        (false, { s with table, faults := s.faults ++ [.declaration cause] }) := by
  unfold declare
  rw [eval_bind, eval_get]
  dsimp only
  rcases operation s.table with ⟨cause | ⟨⟩, table⟩ <;> rfl

/-- A declaration leads to the table of its operation, whether it is possible or not. -/
theorem declare_walks (operation : VariableTable → TableOutcome) (s : ScriptCheck) :
    Walks types (declare operation) s [] (operation s.table).2 := by
  constructor
  · rw [eval_declare]
    rcases operation s.table with ⟨cause | ⟨⟩, table⟩ <;> rfl
  · intro visited h
    rw [eval_declare, List.append_nil]
    rcases operation s.table with ⟨cause | ⟨⟩, table⟩
    · refine ⟨h.seen, h.expressions, ?_⟩
      rw [List.filterMap_append, h.faults]
      exact List.append_nil _
    · exact ⟨h.seen, h.expressions, h.faults⟩

theorem declareInput_walks (name typeName : String) (s : ScriptCheck) :
    Walks types (declareInput name typeName) s []
      (s.table.extend types ⟨.input, name, .ofTypeName typeName⟩) := by
  unfold declareInput
  refine (quiet.variableType name typeName).then_walks fun s' htable => ?_
  rw [eval_variableType]
  by_cases h : Text.isIdentifier name.toList = true ∧ (SemanticType.ofTypeName typeName).Known types
  · rw [if_pos h, extend_input h.1 h.2, ← htable]
    refine (declare_walks _ s').then_quiet fun declared => ?_
    cases declared with
    | false => exact .pure _
    | true => exact Quiet.bind (fun s => .of_kept rfl rfl rfl) fun _ => .pure _
  · rw [if_neg h, extend_refused h, ← htable]
    exact Quiet.pure _ s'

theorem enterLocal_walks (name : String) (type : SemanticType)
    (value : Option (Option (ExprRef × ResultKind))) (s : ScriptCheck) :
    Walks types (enterLocal name (some type) value) s [] (s.table.declareLocal name type).2 := by
  refine (declare_walks _ s).then_quiet fun declared => ?_
  cases declared with
  | false => exact .pure _
  | true =>
    rcases value with _ | _ | value
    · exact .pure _
    · exact .pure _
    · refine Quiet.bind (quiet.assignable _ _ _) fun fits => ?_
      cases fits <;> exact .pure _

end Declarations

/-! ## Expressions -/

section Expressions

/-- A text that has been met before adds nothing. -/
theorem Walked.again (h : Walked types visited s) {o : Occurrence}
    (hmem : o.text ∈ visited.map (·.text)) : Walked types (visited ++ [o]) s where
  seen text := by
    rw [h.seen, List.map_append, List.mem_append, List.map_singleton, List.mem_singleton, not_or]
    exact ⟨fun hnew => ⟨hnew, fun hsame => hnew (hsame ▸ hmem)⟩, And.left⟩
  expressions := by rw [Occurrence.firsts_concat, if_pos hmem, h.expressions]
  faults := by rw [Occurrence.firsts_concat, if_pos hmem, h.faults]

/-- A new text becomes an expression or a fault. -/
theorem Walked.new (h : Walked types visited s) {o : Occurrence}
    (hnew : o.text ∉ visited.map (·.text)) {s' : ScriptCheck}
    {value : Option PendingExpression} (hseen : s'.seen = s.seen.insert o.text value)
    (hexpressions : s'.expressions.map (fun e => (e.source, e.sentence)) =
      s.expressions.map (fun e => (e.source, e.sentence)) ++ (o.translated? types).toList)
    (hfaults : s'.faults.filterMap (·.untranslated?) =
      s.faults.filterMap (·.untranslated?) ++ (o.untranslated? types).toList) :
    Walked types (visited ++ [o]) s' where
  seen text := by
    rw [hseen, List.map_append, List.mem_append, List.map_singleton, List.mem_singleton, not_or]
    by_cases hsame : text = o.text
    · simp [hsame]
    · rw [Dictionary.get?_insert_of_ne _ hsame, h.seen]
      exact ⟨fun hnew => ⟨hnew, hsame⟩, And.left⟩
  expressions := by
    rw [Occurrence.firsts_concat, if_neg hnew, List.filterMap_append, hexpressions, h.expressions]
    cases ho : o.translated? types <;> simp [ho]
  faults := by
    rw [Occurrence.firsts_concat, if_neg hnew, List.filterMap_append, hfaults, h.faults]
    cases ho : o.untranslated? types <;> simp [ho]

theorem expression_walks (text : String) (s : ScriptCheck) :
    Walks types (expression script text) s [⟨text, s.table⟩] s.table := by
  unfold expression
  cases hseen : s.seen.get? text with
  | some known =>
    refine ⟨by simp [hseen], fun visited h => ?_⟩
    have hmem : text ∈ visited.map (·.text) := by
      by_contra hnew
      rw [(h.seen text).mpr hnew] at hseen
      cases hseen
    have hagain : Walked types (visited ++ [⟨text, s.table⟩]) s := h.again hmem
    simpa only [eval_bind, eval_get, hseen, eval_pure] using hagain
  | none =>
    cases hsentence : (Expression.sentence s.table text).run types with
    | error cause =>
      refine ⟨by simp [hseen, hsentence], fun visited h => ?_⟩
      simp only [eval_bind, eval_get, hseen, eval_lift, hsentence, eval_set, eval_refuse]
      refine h.new ((h.seen text).mp hseen) rfl ?_ ?_
      · simp [Occurrence.translated?, hsentence, Except.toOption]
      · simp [Occurrence.untranslated?, hsentence, failureOf, ScriptFault.untranslated?]
    | ok sentence =>
      refine ⟨by simp [hseen, hsentence], fun visited h => ?_⟩
      simp only [eval_bind, eval_get, hseen, eval_lift, hsentence, eval_set, eval_pure]
      refine h.new ((h.seen text).mp hseen) rfl ?_ ?_
      · simp [Occurrence.translated?, hsentence, Except.toOption]
      · simp [Occurrence.untranslated?, hsentence, failureOf, ScriptFault.untranslated?]

theorem initialValue_walks (init : Option String) (s : ScriptCheck) :
    Walks types (initialValue script init) s (init.toList.map (⟨·, s.table⟩)) s.table := by
  cases init with
  | none => exact Quiet.pure _ s
  | some text => exact (expression_walks text s).then_quiet fun _ => .pure _

end Expressions

/-! ## Statements -/

theorem declareLocal_walks (name typeName : String) (init : Option String) (s : ScriptCheck) :
    Walks types (declareLocal script name typeName init) s (init.toList.map (⟨·, s.table⟩))
      (s.table.extend types ⟨.local, name, .ofTypeName typeName⟩) := by
  rw [declareLocal_eq]
  refine (quiet.variableType name typeName).then_walks fun s₁ h₁ => ?_
  rw [eval_variableType, ← h₁]
  refine (initialValue_walks init s₁).then fun value s₂ h₂ => ?_
  by_cases h : Text.isIdentifier name.toList = true ∧ (SemanticType.ofTypeName typeName).Known types
  · rw [if_pos h, extend_local h.1 h.2, ← h₂]
    exact enterLocal_walks name _ value s₂
  · rw [if_neg h, extend_refused h, ← h₂]
    exact Quiet.pure _ s₂

theorem setLocal_walks (target text : String) (s : ScriptCheck) :
    Walks types (setLocal script target text) s [⟨text, s.table⟩] s.table := by
  rw [setLocal_eq]
  refine (quiet.targetType target).then_walks fun s' htable => ?_
  rw [← htable]
  exact (expression_walks text s').then_quiet fun value => quiet.updateLocal _ _ value

theorem compare_walks (c : Call) (comparison : Comparison) (left right : String)
    (description : Option String) (s : ScriptCheck) :
    Walks types (compare script c comparison left right description) s
      [⟨left, s.table⟩, ⟨right, s.table⟩] s.table := by
  rw [compare_eq]
  have hleft : Walks types (expression script left) s [⟨left, s.table⟩] s.table :=
    expression_walks left s
  refine hleft.andThen fun left s' htable => ?_
  rw [← htable]
  exact (expression_walks right s').then_quiet fun right => quiet.compareOperands _ _ _ left right

theorem callStatement_walks (c : Call) (s : ScriptCheck) :
    Walks types (callStatement script c) s ((textsOfCall c).map (⟨·, s.table⟩))
      (c.scopeBehind types s.table) := by
  have hsteps := callSteps script c
  generalize callStatement script c = x at hsteps
  cases hsteps with
  | declareInput name typeName => exact declareInput_walks name typeName s
  | declareLocal name typeName => exact declareLocal_walks name typeName none s
  | initLocal name typeName text => exact declareLocal_walks name typeName (some text) s
  | setLocal target text => exact setLocal_walks target text s
  | refused hf hdeclares htexts =>
    rw [htexts, Call.scopeBehind, hdeclares]
    exact quiet.refuse _ hf s

theorem condition_walks (c : Call) (s : ScriptCheck) :
    Walks types (condition script c) s (c.comparedTexts.map (⟨·, s.table⟩)) s.table := by
  have hsteps := conditionSteps script c
  generalize condition script c = x at hsteps
  cases hsteps with
  | compared description hname hargs =>
    rw [Call.comparedTexts_eq hname hargs]
    exact compare_walks c _ _ _ description s
  | refused hf htexts =>
    rw [htexts]
    exact quiet.refuse _ hf s

mutual

theorem statement_walks : ∀ (st : Statement) (s : ScriptCheck),
    Walks types (statement script st) s (st.occurrences types s.table)
      (st.scopeBehind types s.table)
  | .call c, s => by
    unfold statement
    exact callStatement_walks c s
  | .branch c thenBranch elseBranch, s => by
    unfold statement Statement.occurrences Statement.scopeBehind
    refine (condition_walks c s).andThen fun condition s₁ h₁ => ?_
    rw [← h₁]
    refine (statements_walk thenBranch s₁).andThen fun _ s₂ h₂ => ?_
    rw [← h₂]
    exact (statements_walk elseBranch s₂).then_quiet fun _ => .pure _

/-- The check of any statements comes past all their expressions. -/
theorem statements_walk : ∀ (ss : List Statement) (s : ScriptCheck),
    Walks types (statements script ss) s (Statement.allOccurrences types s.table ss)
      (Statement.scopeBehindAll types s.table ss)
  | [], s => by
    unfold statements
    exact Quiet.pure _ s
  | st :: rest, s => by
    unfold statements Statement.allOccurrences Statement.scopeBehindAll
    refine (statement_walks st s).andThen fun _ s' htable => ?_
    rw [← htable]
    exact (statements_walk rest s').then_quiet fun _ => .pure _

end

/-- Behind a whole script all its expressions have been met. -/
theorem walked_statements (types : Registry) (script : QualifiedName) (body : List Statement) :
    Walked types (Statement.allOccurrences types .empty body)
      (eval types (statements script body) start).2 :=
  (statements_walk body start).walked [] walked_start

end ScriptCheck

end Scriptorium

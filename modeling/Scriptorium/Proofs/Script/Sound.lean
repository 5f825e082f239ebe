import Scriptorium.Proofs.Name.Discriminator
import Scriptorium.Proofs.Script.Matches
import Scriptorium.Proofs.Script.Stepwise

/-!
# The check is sound

A script in which no fault is found yields the instructions of its statements.
The check keeps one translation for each text: it was made against the
declarations in front of the text's first occurrence, and since declarations
stay, it is the translation against the declarations at every later one. The
units of different texts have different names.
-/

namespace Scriptorium.ScriptCheck

variable {α β : Type} {types : Registry} {script : QualifiedName}

/-! ## Faults are only added -/

/-- The step keeps the faults found before it. -/
def Accumulates (types : Registry) (x : Checking α) : Prop :=
  ∀ s, s.faults <+: (eval types x s).2.faults

theorem Accumulates.clean {x : Checking α} (h : Accumulates types x) {s : ScriptCheck}
    (k : (eval types x s).2.faults = []) : s.faults = [] := by
  have := h s
  rw [k] at this
  exact List.prefix_nil.mp this

theorem Accumulates.pure (a : α) : Accumulates types (pure a : Checking α) :=
  fun _ => List.prefix_refl _

theorem Accumulates.bind {x : Checking α} {f : α → Checking β} (h : Accumulates types x)
    (k : ∀ a, Accumulates types (f a)) : Accumulates types (x >>= f) := by
  intro s
  rw [eval_bind]
  exact (h s).trans (k _ _)

theorem Accumulates.expression (text : String) :
    Accumulates types (expression script text) := by
  intro s
  unfold ScriptCheck.expression
  rw [eval_bind, eval_get]
  dsimp only
  split
  · exact List.prefix_refl _
  · rw [eval_bind, eval_lift]
    dsimp only
    split
    · rw [eval_bind, eval_set, eval_refuse]
      exact List.prefix_append _ _
    · simpa only [eval_bind, eval_set, eval_pure] using List.prefix_refl _

theorem Accumulates.declare (operation : VariableTable → TableOutcome) :
    Accumulates types (declare operation) := by
  intro s
  unfold ScriptCheck.declare
  rw [eval_bind, eval_get]
  dsimp only
  rcases operation s.table with ⟨cause | ⟨⟩, table⟩
  · simp
  · simp

theorem Accumulates.recordType? (name : QualifiedName) :
    Accumulates types (recordType? name) := by
  intro s
  unfold ScriptCheck.recordType?
  rw [eval_bind, eval_lift]
  split
  · exact List.prefix_refl _
  · exact List.prefix_append _ _

/-- Every step of the check keeps the faults found before it. -/
theorem accumulating : Stepwise fun _ x => Accumulates types x where
  pure := Accumulates.pure
  bind := Accumulates.bind
  get _ := List.prefix_refl _
  fault _ _ _ := List.prefix_append _ _
  declare := Accumulates.declare
  note _ _ := List.prefix_refl _
  recordType? := Accumulates.recordType?
  expression _ := Accumulates.expression

/-! ## What is known of the expressions -/

/-- Every text met so far has one unit, which holds its translation under a name of its own. -/
structure Sound (types : Registry) (script : QualifiedName) (s : ScriptCheck) : Prop where
  seen : ∀ text e, s.seen.get? text = some (some e) → e ∈ s.expressions ∧ e.source = text
  noted : ∀ e ∈ s.expressions, s.seen.get? e.source = some (some e)
  translated : ∀ e ∈ s.expressions,
    (Expression.sentence s.table e.source).run types = .ok e.sentence
  named : ∀ e ∈ s.expressions,
    ∃ d, e.name = script.expression d ∧ s.discriminators.owners.get? d = some e.source
  discriminators : s.discriminators.WellFormed
  failed : ∀ text, s.seen.get? text = some none → s.faults ≠ []

theorem sound_start : Sound types script start where
  seen text e h := by simp [start] at h
  noted e h := by simp [start] at h
  translated e h := by simp [start] at h
  named e h := by simp [start] at h
  discriminators := Discriminators.wellFormed_start
  failed text h := by simp [start] at h

/-- Units of one name are one unit. -/
theorem Sound.name_inj {s : ScriptCheck} (h : Sound types script s) {e e' : PendingExpression}
    (he : e ∈ s.expressions) (he' : e' ∈ s.expressions) (hname : e.name = e'.name) : e = e' := by
  obtain ⟨d, hd, howner⟩ := h.named e he
  obtain ⟨d', hd', howner'⟩ := h.named e' he'
  have hsame : d = d' := by
    rw [hd, hd'] at hname
    exact Option.some.inj (QualifiedName.mk.inj hname).2.2
  have hsource : e.source = e'.source := by
    rw [hsame, howner'] at howner
    exact (Option.some.inj howner).symm
  have hnoted := h.noted e he
  rw [hsource, h.noted e' he'] at hnoted
  exact (Option.some.inj (Option.some.inj hnoted)).symm

/-- More declarations change nothing that is known. -/
theorem Sound.declare {s : ScriptCheck} (h : Sound types script s) {table : VariableTable}
    (hwithin : s.table.Within table) (manifest : InputManifest) :
    Sound types script { s with table, manifest } where
  seen := h.seen
  noted := h.noted
  translated e he := Expression.sentence_within hwithin (h.translated e he)
  named := h.named
  discriminators := h.discriminators
  failed := h.failed

/-- A text that is met for the first time gets a unit under a name of its own. -/
theorem Sound.meet {s : ScriptCheck} (h : Sound types script s) {text : String}
    {sentence : Sentence} (hseen : s.seen.get? text = none)
    (hsentence : (Expression.sentence s.table text).run types = .ok sentence) :
    let allocated := s.discriminators.allocate text
    let e : PendingExpression := ⟨script.expression allocated.1, text, sentence⟩
    Sound types script
      { s with
        discriminators := allocated.2
        seen := s.seen.insert text (some e)
        expressions := s.expressions ++ [e] } := by
  intro allocated e
  obtain ⟨hwf, howner, hkept⟩ := Discriminators.allocate_owners h.discriminators text
  have hother {other : PendingExpression} (hmem : other ∈ s.expressions) : other.source ≠ text := by
    intro hsource
    have hnoted := h.noted other hmem
    rw [hsource, hseen] at hnoted
    cases hnoted
  refine ⟨fun source known hknown => ?_, fun known hmem => ?_, fun known hmem => ?_,
    fun known hmem => ?_, hwf, fun source hfailed => ?_⟩
  · by_cases hsource : source = text
    · subst hsource
      obtain rfl : e = known := by simpa using hknown
      exact ⟨List.mem_append_right _ (List.mem_singleton.mpr rfl), rfl⟩
    · rw [Dictionary.get?_insert_of_ne _ hsource] at hknown
      obtain ⟨hmem, hown⟩ := h.seen source known hknown
      exact ⟨List.mem_append_left _ hmem, hown⟩
  · rcases List.mem_append.mp hmem with hmem | hmem
    · rw [Dictionary.get?_insert_of_ne _ (hother hmem)]
      exact h.noted known hmem
    · obtain rfl := List.mem_singleton.mp hmem
      exact Dictionary.get?_insert_self _ text _
  · rcases List.mem_append.mp hmem with hmem | hmem
    · exact h.translated known hmem
    · obtain rfl := List.mem_singleton.mp hmem
      exact hsentence
  · rcases List.mem_append.mp hmem with hmem | hmem
    · obtain ⟨d, hd, hown⟩ := h.named known hmem
      exact ⟨d, hd, hkept d _ hown⟩
    · obtain rfl := List.mem_singleton.mp hmem
      exact ⟨_, rfl, howner⟩
  · by_cases hsource : source = text
    · subst hsource
      simp at hfailed
    · rw [Dictionary.get?_insert_of_ne _ hsource] at hfailed
      exact h.failed source hfailed

/-! ## Steps without faults -/

section Clean

variable {s : ScriptCheck}

/-- An expression without a fault has a unit; its first occurrence adds the unit. -/
theorem expression_clean (h : Sound types script s) {text : String}
    (k : (eval types (expression script text) s).2.faults = []) :
    ∃ value s', eval types (expression script text) s = (some value, s') ∧
      Sound types script s' ∧ s.expressions <+: s'.expressions ∧ s'.table = s.table ∧
      s'.manifest = s.manifest ∧ value.1.source = text ∧
      Site types s'.expressions s.table text value.1 value.2 := by
  have hclean := (accumulating.expression script text).clean k
  unfold expression at k ⊢
  rw [eval_bind, eval_get] at k ⊢
  dsimp only at k ⊢
  rcases hseen : s.seen.get? text with _ | _ | e
  · simp only [hseen, eval_bind, eval_lift] at k ⊢
    rcases hsentence : (Expression.sentence s.table text).run types with cause | sentence
    · simp [hsentence] at k
    · simp only [eval_bind, eval_set, eval_pure, Prod.mk.injEq]
      refine ⟨_, _, ⟨rfl, rfl⟩, h.meet hseen hsentence, List.prefix_append _ _, rfl, rfl, rfl, ?_⟩
      exact ⟨_, List.mem_append_right _ (List.mem_singleton.mpr rfl), rfl, rfl, rfl, hsentence⟩
  · exact absurd hclean (h.failed text hseen)
  · obtain ⟨hmem, hsource⟩ := h.seen text e hseen
    simp only [Option.map_some, eval_pure, Prod.mk.injEq]
    refine ⟨_, _, ⟨rfl, rfl⟩, h, List.prefix_refl _, rfl, rfl, hsource, ?_⟩
    refine ⟨e, hmem, hsource, rfl, rfl, ?_⟩
    have := h.translated e hmem
    rwa [hsource] at this

theorem recordType?_clean {name : QualifiedName}
    (k : (eval types (recordType? name) s).2.faults = []) :
    ∃ found, types name = .ok found ∧ eval types (recordType? name) s = (found, s) := by
  unfold recordType? at k ⊢
  rw [eval_bind, eval_lift, Inquiry.run_lookup] at k ⊢
  rcases hfound : types name with cause | found
  · simp [hfound] at k
  · exact ⟨found, rfl, rfl⟩

theorem variableType_clean {name typeName : String}
    (k : (eval types (variableType name typeName) s).2.faults = []) :
    eval types (variableType name typeName) s = (some (.ofTypeName typeName), s) ∧
      Text.isIdentifier name.toList = true ∧ (SemanticType.ofTypeName typeName).Known types := by
  unfold variableType at k ⊢
  split at k
  · simp at k
  next hname =>
  have hident : Text.isIdentifier name.toList = true := by simpa using hname
  rw [if_neg hname]
  cases htype : SemanticType.ofTypeName typeName with
  | primitive kind => exact ⟨rfl, hident, trivial⟩
  | array => exact ⟨rfl, hident, trivial⟩
  | record record =>
    simp only [htype, eval_bind] at k ⊢
    have hclean : (eval types (recordType? record) s).2.faults = [] := by
      refine Accumulates.clean ?_ k
      cases (eval types (recordType? record) s).1 with
      | none => exact accumulating.refuse _ ⟨rfl, rfl⟩
      | some t => exact .pure _
    obtain ⟨found, hfound, heval⟩ := recordType?_clean hclean
    rw [heval] at k ⊢
    cases found with
    | none => simp at k
    | some t => exact ⟨rfl, hident, t, hfound⟩

theorem fieldPathType_clean {target : String} {type : SemanticType} {fields : List String}
    (k : (eval types (fieldPathType target type fields) s).2.faults = []) :
    ∃ found, Expression.slotType? types type fields = some found ∧
      eval types (fieldPathType target type fields) s = (some found, s) := by
  induction fields generalizing type with
  | nil => cases type <;> exact ⟨_, rfl, rfl⟩
  | cons field fields ih =>
    cases type with
    | primitive kind => simp [fieldPathType] at k
    | array => simp [fieldPathType] at k
    | record name =>
      unfold fieldPathType at k ⊢
      rw [eval_bind] at k ⊢
      have hclean : (eval types (recordType? name) s).2.faults = [] := by
        refine Accumulates.clean ?_ k
        split
        · exact accumulating.fieldPathType _ _ _
        · exact accumulating.refuse _ ⟨rfl, rfl⟩
      obtain ⟨found, hfound, heval⟩ := recordType?_clean hclean
      rw [heval] at k ⊢
      rcases hfield : found.bind (·.field? field) with _ | definition
      · simp [hfield] at k
      · simp only [hfield] at k ⊢
        obtain ⟨type, htype, hrest⟩ := ih k
        obtain ⟨t, rfl, hdefinition⟩ := Option.bind_eq_some_iff.mp hfield
        have hslot := Expression.slotType?_cons.mpr ⟨_, t, _, rfl, hfound, hdefinition, htype⟩
        exact ⟨type, hslot, hrest⟩

theorem targetType_clean {target : String}
    (k : (eval types (targetType target) s).2.faults = []) :
    ∃ type, targetType? types s.table target = some type ∧
      eval types (targetType target) s = (some type, s) := by
  unfold targetType at k ⊢
  unfold targetType?
  dsimp only at k ⊢
  rw [eval_bind, eval_get] at k ⊢
  dsimp only at k ⊢
  rcases hget : s.table.getLocal? (Text.pieces '.' target).1 with _ | v
  · simp [hget] at k
  · simp only [hget] at k ⊢
    exact fieldPathType_clean k

theorem declare_clean {operation : VariableTable → TableOutcome}
    (k : (eval types (declare operation) s).2.faults = []) :
    ∃ table, operation s.table = (.ok (), table) ∧
      eval types (declare operation) s = (true, { s with table }) := by
  unfold declare at k ⊢
  rw [eval_bind, eval_get] at k ⊢
  dsimp only at k ⊢
  rcases hoperation : operation s.table with ⟨cause | ⟨⟩, table⟩
  · simp [hoperation] at k
  · exact ⟨table, rfl, rfl⟩

theorem assignable_clean {target : String} {type : SemanticType} {value : ExprRef × ResultKind}
    (k : (eval types (assignable target type value) s).2.faults = []) :
    type.accepts value.2 = true ∧ eval types (assignable target type value) s = (true, s) := by
  unfold assignable at k ⊢
  split at k
  · next haccepts =>
    rw [if_pos haccepts]
    exact ⟨haccepts, rfl⟩
  · simp at k

theorem declareInput_ok {t t' : VariableTable} {name : String} {type : SemanticType}
    (h : t.declareInput name type = (.ok (), t')) :
    t.namespace? name = none ∧ t' = t.addInput name ⟨type, .null⟩ := by
  unfold VariableTable.declareInput at h
  rcases hspace : t.namespace? name with _ | space
  · simp only [hspace, Prod.mk.injEq, true_and] at h
    exact ⟨rfl, h.symm⟩
  · simp [hspace] at h

theorem declareLocal_ok {t t' : VariableTable} {name : String} {type : SemanticType}
    (h : t.declareLocal name type = (.ok (), t')) :
    t.namespace? name = none ∧ t' = t.setLocal name ⟨type, .null⟩ := by
  unfold VariableTable.declareLocal at h
  rcases hspace : t.namespace? name with _ | space
  · simp only [hspace, Prod.mk.injEq, true_and] at h
    exact ⟨rfl, h.symm⟩
  · simp [hspace] at h

/-! ## Statements without faults -/

/-- What a statement without a fault leads to: one instruction, in front of whatever the
statements behind it yield. -/
def Yields (types : Registry) (script : QualifiedName) (s : ScriptCheck) (st : Statement)
    (r : Option Instruction × ScriptCheck) : Prop :=
  ∃ i, r.1 = some i ∧ Sound types script r.2 ∧ s.expressions <+: r.2.expressions ∧
    r.2.manifest = s.manifest ++ i.declaredInputs ∧
    ∀ units rest is t', r.2.expressions ⊆ units →
      Matches types units r.2.table rest is t' →
      Matches types units s.table (st :: rest) (i :: is) t'

theorem site_mono {units units' : List PendingExpression} (h : units ⊆ units')
    {t : VariableTable} {text : String} {ref : ExprRef} {kind : ResultKind}
    (k : Site types units t text ref kind) : Site types units' t text ref kind := by
  obtain ⟨e, he, hrest⟩ := k
  exact ⟨e, h he, hrest⟩

theorem declareInput_yields (h : Sound types script s) {name typeName : String} {line : Nat}
    (k : (eval types (declareInput name typeName) s).2.faults = []) :
    Yields types script s (.call ⟨"DeclareInputVar", [name, typeName], line⟩)
      (eval types (declareInput name typeName) s) := by
  unfold declareInput at k ⊢
  rw [eval_bind] at k ⊢
  have htype : (eval types (variableType name typeName) s).2.faults = [] := by
    refine Accumulates.clean ?_ k
    split
    · exact .pure _
    · refine (accumulating.declare _).bind fun declared => ?_
      cases declared with
      | false => exact .pure _
      | true => exact fun s => List.prefix_refl _
  obtain ⟨heval, hname, hknown⟩ := variableType_clean htype
  rw [heval] at k ⊢
  dsimp only at k ⊢
  rw [eval_bind] at k ⊢
  have hdeclare : (eval types (declare (·.declareInput name (.ofTypeName typeName))) s).2.faults =
      [] := by
    refine Accumulates.clean ?_ k
    split
    · exact fun s => List.prefix_refl _
    · exact .pure _
  obtain ⟨table, hoperation, heval⟩ := declare_clean hdeclare
  obtain ⟨hfresh, rfl⟩ := declareInput_ok hoperation
  rw [heval]
  refine ⟨_, rfl, h.declare (VariableTable.within_addInput hfresh _) _, List.prefix_refl _, rfl,
    ?_⟩
  intro units rest is t' hunits hrest
  exact .declareInput hname hknown hfresh hrest

theorem enterLocal_clean {name : String} {type : SemanticType}
    (value : Option (ExprRef × ResultKind))
    (k : (eval types (enterLocal name (some type) (value.map some)) s).2.faults = []) :
    s.table.namespace? name = none ∧ (∀ v, value = some v → type.accepts v.2 = true) ∧
      eval types (enterLocal name (some type) (value.map some)) s =
        (some (.declareLocal name type (value.map (·.1))),
          { s with table := s.table.setLocal name ⟨type, .null⟩ }) := by
  have hdeclare : (eval types (declare (·.declareLocal name type)) s).2.faults = [] := by
    unfold enterLocal at k
    dsimp only at k
    rw [eval_bind] at k
    refine Accumulates.clean ?_ k
    split
    · cases value with
      | none => exact .pure _
      | some value =>
        refine (accumulating.assignable _ _ _).bind fun fits => ?_
        cases fits <;> exact .pure _
    · exact .pure _
  obtain ⟨table, hoperation, heval⟩ := declare_clean hdeclare
  obtain ⟨hfresh, rfl⟩ := declareLocal_ok hoperation
  unfold enterLocal at k ⊢
  dsimp only at k ⊢
  rw [eval_bind, heval] at k ⊢
  cases value with
  | none => exact ⟨hfresh, nofun, rfl⟩
  | some value =>
    simp only [if_true, Option.map_some, eval_bind] at k ⊢
    have hfits := Accumulates.clean (by split <;> exact .pure _) k
    obtain ⟨haccepts, heval⟩ := assignable_clean hfits
    rw [heval]
    refine ⟨hfresh, ?_, rfl⟩
    intro v hv
    obtain rfl := Option.some.inj hv
    exact haccepts

theorem declareLocal_yields (h : Sound types script s) {name typeName : String} {line : Nat}
    (k : (eval types (declareLocal script name typeName none) s).2.faults = []) :
    Yields types script s (.call ⟨"DeclareLocalVar", [name, typeName], line⟩)
      (eval types (declareLocal script name typeName none) s) := by
  rw [declareLocal_eq, eval_bind] at k ⊢
  have htype : (eval types (variableType name typeName) s).2.faults = [] :=
    Accumulates.clean ((accumulating.initialValue _).bind fun _ => accumulating.enterLocal _ _ _) k
  obtain ⟨heval, hname, hknown⟩ := variableType_clean htype
  rw [heval] at k ⊢
  simp only [initialValue, eval_bind, eval_pure] at k ⊢
  obtain ⟨hfresh, -, heval⟩ := enterLocal_clean none k
  rw [Option.map_none] at heval
  rw [heval]
  refine ⟨_, rfl, h.declare (VariableTable.within_setLocal hfresh _) _, List.prefix_refl _,
    (List.append_nil _).symm, ?_⟩
  intro units rest is t' hunits hrest
  exact .declareLocal hname hknown hfresh hrest

theorem initLocal_yields (h : Sound types script s) {name typeName text : String} {line : Nat}
    (k : (eval types (declareLocal script name typeName (some text)) s).2.faults = []) :
    Yields types script s (.call ⟨"DeclareLocalVar", [name, typeName, text], line⟩)
      (eval types (declareLocal script name typeName (some text)) s) := by
  rw [declareLocal_eq, eval_bind] at k ⊢
  have htype : (eval types (variableType name typeName) s).2.faults = [] :=
    Accumulates.clean ((accumulating.initialValue _).bind fun _ => accumulating.enterLocal _ _ _) k
  obtain ⟨heval, hname, hknown⟩ := variableType_clean htype
  rw [heval] at k ⊢
  simp only [initialValue, eval_bind, eval_map] at k ⊢
  have hvalue := Accumulates.clean (accumulating.enterLocal _ _ _) k
  obtain ⟨value, s', heval, hsound, hbefore, htable, hmanifest, hsource, hsite⟩ :=
    expression_clean h hvalue
  rw [heval] at k ⊢
  obtain ⟨hfresh, haccepts, heval⟩ := enterLocal_clean (some value) k
  rw [Option.map_some] at heval
  rw [heval]
  refine ⟨_, rfl, hsound.declare (VariableTable.within_setLocal hfresh _) _, hbefore,
    hmanifest.trans (List.append_nil _).symm, ?_⟩
  intro units rest is t' hunits hrest
  subst hsource
  rw [htable] at hfresh hrest
  exact .initLocal hname hknown hfresh (site_mono hunits hsite) (haccepts value rfl) hrest

theorem setLocal_yields (h : Sound types script s) {target text : String} {line : Nat}
    (k : (eval types (setLocal script target text) s).2.faults = []) :
    Yields types script s (.call ⟨"SetLocalVar", [target, text], line⟩)
      (eval types (setLocal script target text) s) := by
  rw [setLocal_eq, eval_bind] at k ⊢
  have htarget := Accumulates.clean ((accumulating.expression _ _).bind fun value =>
    accumulating.updateLocal _ _ value) k
  obtain ⟨type, htype, heval⟩ := targetType_clean htarget
  rw [heval] at k ⊢
  dsimp only at k ⊢
  rw [eval_bind] at k ⊢
  have hvalue := Accumulates.clean (accumulating.updateLocal _ _ _) k
  obtain ⟨value, s', heval, hsound, hbefore, htable, hmanifest, hsource, hsite⟩ :=
    expression_clean h hvalue
  rw [heval] at k ⊢
  simp only [updateLocal, eval_bind] at k ⊢
  have hfits := Accumulates.clean (by split <;> exact .pure _) k
  obtain ⟨haccepts, heval⟩ := assignable_clean hfits
  simp only [heval, if_true, eval_pure]
  refine ⟨_, rfl, hsound, hbefore, hmanifest.trans (List.append_nil _).symm, ?_⟩
  intro units rest is t' hunits hrest
  subst hsource
  rw [htable] at hrest
  exact .setLocal htype (site_mono hunits hsite) haccepts hrest

theorem callStatement_yields (h : Sound types script s) {c : Call}
    (k : (eval types (callStatement script c) s).2.faults = []) :
    Yields types script s (.call c) (eval types (callStatement script c) s) := by
  have hsteps := callSteps script c
  generalize callStatement script c = x at hsteps k ⊢
  cases hsteps with
  | declareInput => exact declareInput_yields h k
  | declareLocal => exact declareLocal_yields h k
  | initLocal => exact initLocal_yields h k
  | setLocal => exact setLocal_yields h k
  | refused => simp at k

/-- What a condition without a fault leads to. -/
def YieldsCondition (types : Registry) (script : QualifiedName) (s : ScriptCheck) (c : Call)
    (r : Option Condition × ScriptCheck) : Prop :=
  ∃ condition, r.1 = some condition ∧ Sound types script r.2 ∧ s.expressions <+: r.2.expressions ∧
    r.2.table = s.table ∧ r.2.manifest = s.manifest ∧
    Tests types r.2.expressions s.table c condition

theorem compare_yields (h : Sound types script s) {c : Call} {comparison : Comparison}
    {left right : String} {description : Option String} (hname : c.name = comparison.callName)
    (hargs : c.args = left :: right :: description.toList)
    (k : (eval types (compare script c comparison left right description) s).2.faults = []) :
    YieldsCondition types script s c
      (eval types (compare script c comparison left right description) s) := by
  rw [compare_eq] at k ⊢
  rw [eval_bind] at k ⊢
  have hleft := Accumulates.clean ((accumulating.expression _ _).bind fun right =>
    accumulating.compareOperands _ _ _ _ right) k
  obtain ⟨⟨left, leftKind⟩, s₁, heval, hsound, hbefore₁, htable₁, hmanifest₁, hsource₁, hsite₁⟩ :=
    expression_clean h hleft
  rw [heval] at k ⊢
  dsimp only at k ⊢
  rw [eval_bind] at k ⊢
  have hright := Accumulates.clean (accumulating.compareOperands _ _ _ _ _) k
  obtain ⟨⟨right, rightKind⟩, s₂, heval, hsound, hbefore₂, htable₂, hmanifest₂, hsource₂, hsite₂⟩ :=
    expression_clean hsound hright
  rw [heval] at k ⊢
  dsimp only [compareOperands] at k hsource₁ hsource₂ ⊢
  split at k
  · next hcomparable =>
    rw [if_pos hcomparable]
    subst hsource₁ hsource₂
    rw [htable₁] at hsite₂
    refine ⟨_, rfl, hsound, hbefore₁.trans hbefore₂, htable₂.trans htable₁,
      hmanifest₂.trans hmanifest₁, hname, hargs, ?_⟩
    exact ⟨leftKind, rightKind, site_mono hbefore₂.subset hsite₁, hsite₂, hcomparable⟩
  · simp at k

theorem condition_yields (h : Sound types script s) {c : Call}
    (k : (eval types (condition script c) s).2.faults = []) :
    YieldsCondition types script s c (eval types (condition script c) s) := by
  have hsteps := conditionSteps script c
  generalize condition script c = x at hsteps k ⊢
  cases hsteps with
  | compared description hname hargs => exact compare_yields h hname hargs k
  | refused => simp at k

end Clean

mutual

theorem statement_yields : ∀ (st : Statement) {s : ScriptCheck}, Sound types script s →
    (eval types (statement script st) s).2.faults = [] →
    Yields types script s st (eval types (statement script st) s)
  | .call c, s, h, k => by
    unfold statement at k ⊢
    exact callStatement_yields h k
  | .branch c thenBranch elseBranch, s, h, k => by
    unfold statement at k ⊢
    simp only [eval_bind, eval_pure] at k ⊢
    have hthen := (accumulating.statements elseBranch).clean k
    have hcondition := (accumulating.statements thenBranch).clean hthen
    obtain ⟨condition, heval, hsound, hbefore, htable, hmanifest, htests⟩ :=
      condition_yields h hcondition
    obtain ⟨hsound₁, hbefore₁, hmanifest₁, hmatches₁⟩ := statements_match thenBranch hsound hthen
    obtain ⟨hsound₂, hbefore₂, hmanifest₂, hmatches₂⟩ := statements_match elseBranch hsound₁ k
    refine ⟨_, by rw [heval]; rfl, hsound₂, (hbefore.trans hbefore₁).trans hbefore₂, ?_, ?_⟩
    · rw [hmanifest₂, hmanifest₁, hmanifest, List.append_assoc]
      rfl
    intro units rest is t' hunits hrest
    have hunits₁ := List.Subset.trans hbefore₂.subset hunits
    have hunits₀ := List.Subset.trans hbefore₁.subset hunits₁
    obtain ⟨hname, hargs, left, right, hleft, hright, hcomparable⟩ := htests
    refine .branch ⟨hname, hargs, left, right, site_mono hunits₀ hleft, site_mono hunits₀ hright,
      hcomparable⟩ ?_ (hmatches₂ units hunits) hrest
    rw [← htable]
    exact hmatches₁ units hunits₁

theorem statements_match : ∀ (ss : List Statement) {s : ScriptCheck}, Sound types script s →
    (eval types (statements script ss) s).2.faults = [] →
    Sound types script (eval types (statements script ss) s).2 ∧
      s.expressions <+: (eval types (statements script ss) s).2.expressions ∧
      (eval types (statements script ss) s).2.manifest =
        s.manifest ++ Instruction.allDeclaredInputs (eval types (statements script ss) s).1 ∧
      ∀ units, (eval types (statements script ss) s).2.expressions ⊆ units →
        Matches types units s.table ss (eval types (statements script ss) s).1
          (eval types (statements script ss) s).2.table
  | [], s, h, _ => by
    unfold statements
    exact ⟨h, List.prefix_refl _, (List.append_nil _).symm, fun _ _ => .nil⟩
  | st :: rest, s, h, k => by
    unfold statements at k ⊢
    simp only [eval_bind, eval_pure] at k ⊢
    have hfirst := (accumulating.statements rest).clean k
    obtain ⟨i, heval, hsound, hbefore, hmanifest, hmatches⟩ := statement_yields st h hfirst
    obtain ⟨hsound', hbefore', hmanifest', hmatches'⟩ := statements_match rest hsound k
    rw [heval]
    refine ⟨hsound', hbefore.trans hbefore', ?_, fun units hunits => ?_⟩
    · rw [hmanifest', hmanifest, List.append_assoc]
      rfl
    exact hmatches units _ _ _ (List.Subset.trans hbefore'.subset hunits) (hmatches' units hunits)

end

theorem run_check (body : List Statement) :
    (check script body).run types =
      if (eval types (statements script body) start).2.faults = [] then
        .ok ⟨⟨(eval types (statements script body) start).2.manifest,
          (eval types (statements script body) start).1⟩,
          (eval types (statements script body) start).2.expressions⟩
      else .error (eval types (statements script body) start).2.faults := by
  unfold check eval
  rw [Inquiry.run_bind]
  dsimp only
  simp only [List.isEmpty_iff]
  split <;> rfl

/-- The program of a checked script has the instructions of the script's statements and the
inputs that they declare, and no two of its units have one name. -/
theorem check_matches {body : List Statement} {checked : CheckedScript}
    (h : (check script body).run types = .ok checked) :
    (∃ t, Matches types checked.expressions .empty body checked.program.statements t) ∧
      checked.program.inputs = Instruction.allDeclaredInputs checked.program.statements ∧
      ∀ e ∈ checked.expressions, (∃ d, e.name = script.expression d) ∧
        ∀ e' ∈ checked.expressions, e.name = e'.name → e = e' := by
  rw [run_check] at h
  split at h
  · next hclean =>
    obtain ⟨hsound, -, hmanifest, hmatches⟩ := statements_match body sound_start hclean
    obtain rfl := Except.ok.inj h
    refine ⟨⟨_, hmatches _ fun _ he => he⟩, hmanifest,
      fun e he => ⟨?_, fun e' he' => hsound.name_inj he he'⟩⟩
    obtain ⟨d, hd, -⟩ := hsound.named e he
    exact ⟨d, hd⟩
  · cases h

/-- The units of a script with a well-formed name have well-formed names. -/
theorem check_wellFormed {body : List Statement} {checked : CheckedScript}
    (hscript : script.isWellFormed = true) (h : (check script body).run types = .ok checked) :
    ∀ e ∈ checked.expressions, e.name.isWellFormed = true := by
  rw [run_check] at h
  split at h
  · next hclean =>
    obtain ⟨hsound, -⟩ := statements_match body sound_start hclean
    obtain rfl := Except.ok.inj h
    intro e he
    obtain ⟨d, hd, howner⟩ := hsound.named e he
    have hnonempty := hsound.discriminators.ne_empty howner
    rw [hd]
    simp only [QualifiedName.isWellFormed, QualifiedName.expression, Bool.and_eq_true] at hscript ⊢
    exact ⟨hscript.1, by simpa using hnonempty⟩
  · cases h

end Scriptorium.ScriptCheck

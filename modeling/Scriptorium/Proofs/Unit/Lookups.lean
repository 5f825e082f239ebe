import Scriptorium.Generation.Cache
import Scriptorium.Proofs.Expression.Terms
import Scriptorium.Proofs.Unit.Compilation

/-!
# Lookups that fail

A record type that cannot be read is not a missing one. The first lookup that
fails is followed through the translation of an expression, the check of a
script and the fields of a record type: the compilation fails with its error,
and no compilation fails that way when all lookups are answered.
-/

namespace Scriptorium

namespace Inquiry

variable {α β : Type} {P : Option RepositoryError → α → Prop}

/-- A lookup reports its own failure, or else what is reported after it. -/
theorem Reports.lookup {name : QualifiedName} {f : Lookup → Inquiry α}
    (h : ∀ found, (f found).Reports fun later a => P ((failureOf found).or later) a) :
    (Inquiry.lookup name >>= f).Reports P :=
  .ask h

/-- A part that reports what its result tells. -/
theorem Reports.cases {P : Option RepositoryError → β → Prop} {x : Inquiry α} {f : α → Inquiry β}
    {told : α → Option RepositoryError} (h : x.Reports fun failed a => failed = told a)
    (k : ∀ a, (f a).Reports fun later b => P ((told a).or later) b) : (x >>= f).Reports P :=
  .bind <| h.mono fun _ a hfailed => hfailed ▸ k a

end Inquiry

open Inquiry

namespace Expression

/-- The failed lookup that a translation tells of. -/
def unread {α : Type} (r : Except TranslationError α) : Option RepositoryError :=
  (failureOf r).bind (·.lookup?)

theorem followFields_reports (access : WrittenAccess) (type : SemanticType)
    (fields : List (List Char)) :
    (followFields access type fields).Reports fun failed r => failed = failureOf r := by
  induction fields generalizing access type with
  | nil => cases type <;> exact .answer rfl
  | cons field fields ih =>
    cases type with
    | primitive kind => exact .answer rfl
    | array => exact .answer rfl
    | record typeName =>
      unfold followFields
      refine .lookup fun found => ?_
      rcases found with cause | _ | recordType
      · exact .answer rfl
      · exact .answer rfl
      · dsimp only
        split
        · exact .answer rfl
        · exact ih _ _

theorem classify_reports (t : VariableTable) (token : List Char) :
    (classify t token).Reports fun failed r => failed = failureOf r := by
  rw [classify_eq]
  split; · exact .answer rfl
  split; · exact .answer rfl
  split
  · unfold fieldChain
    dsimp only
    split
    · exact .answer rfl
    · exact followFields_reports _ _ _
  · exact .answer rfl

theorem advance_reports (t : VariableTable) (previous : String) (state : State)
    (token : List Char) :
    (advance t previous state token).Reports fun failed r => failed = unread r := by
  cases state with
  | start =>
    refine (classify_reports t token).cases fun r => ?_
    rcases r with cause | _ | term <;> exact .answer rfl
  | value kind first rest =>
    unfold advance
    dsimp only
    split <;> exact .answer rfl
  | operation kind first rest symbol =>
    refine (classify_reports t token).cases fun r => ?_
    rcases r with cause | found
    · exact .answer rfl
    · dsimp only
      split <;> exact .answer rfl
  | closed s => exact .answer rfl

theorem readTokens_reports (t : VariableTable) (previous : String) (state : State)
    (tokens : List (List Char)) :
    (readTokens t previous state tokens).Reports fun failed r => failed = unread r := by
  induction tokens generalizing previous state with
  | nil => cases state <;> exact .answer rfl
  | cons token tokens ih =>
    refine (advance_reports t previous state token).cases fun r => ?_
    cases r with
    | error e => exact .answer Option.or_none
    | ok state => exact ih _ _

/-- A translation tells of the first lookup that fails. -/
theorem sentence_reports (t : VariableTable) (text : String) :
    (sentence t text).Reports fun failed r => failed = unread r :=
  readTokens_reports t _ _ _

theorem translate_reports (t : VariableTable) (text : String) :
    (translate t text).Reports fun failed r => failed = unread r := by
  refine (sentence_reports t text).cases fun r => ?_
  cases r with
  | error e => exact .answer Option.or_none
  | ok s => exact .answer rfl

end Expression

namespace ScriptCheck

/-- The first failed lookup behind some faults. -/
def unread (faults : List ScriptFault) : Option RepositoryError := faults.findSome? (·.lookup?)

theorem unread_append (faults later : List ScriptFault) :
    unread (faults ++ later) = (unread faults).or (unread later) :=
  List.findSome?_append

/-- The faults before and after the step tell of a failed lookup that came before, or else of the
first that the step makes. -/
def Tells {α : Type} (x : Checking α) : Prop :=
  ∀ s, (x.run s).Reports fun failed r => unread r.2.faults = (unread s.faults).or failed

variable {α β : Type}

theorem Tells.bind {x : Checking α} {f : α → Checking β} (h : Tells x) (k : ∀ a, Tells (f a)) :
    Tells (x >>= f) := by
  intro s
  rw [StateT.run_bind]
  refine .bind <| (h s).mono fun failed r hr => (k r.1 r.2).mono fun later q hq => ?_
  rw [hq, hr, Option.or_assoc]

/-- A step that asks for no record type and adds no failed lookup. -/
theorem Tells.of_answer {x : Checking α} (h : ∀ s, ∃ r, x.run s = .answer r ∧
    unread r.2.faults = unread s.faults) : Tells x := by
  intro s
  obtain ⟨r, hx, hr⟩ := h s
  rw [hx]
  exact .answer (hr.trans Option.or_none.symm)

theorem Tells.fault (f : ScriptFault) (h : Plain f) : Tells (fault f) := by
  refine .of_answer fun s => ⟨_, rfl, ?_⟩
  rw [unread_append]
  simp [unread, h.lookup?]

theorem Tells.declare (operation : VariableTable → TableOutcome) : Tells (declare operation) := by
  refine .of_answer fun s => ?_
  unfold ScriptCheck.declare
  rcases h : operation s.table with ⟨cause | ⟨⟩, table⟩
  · refine ⟨(false, { s with table, faults := s.faults ++ [.declaration cause] }), ?_, ?_⟩
    · simp only [StateT.run_bind, StateT.run_get, pure_bind, h]
      rfl
    · rw [unread_append]
      exact Option.or_none
  · refine ⟨(true, { s with table }), ?_, rfl⟩
    simp only [StateT.run_bind, StateT.run_get, pure_bind, h]
    rfl

theorem Tells.recordType? (name : QualifiedName) : Tells (recordType? name) := by
  intro s
  refine .ask fun found => ?_
  cases found with
  | ok found => exact .answer Option.or_none.symm
  | error cause => exact .answer (unread_append s.faults _)

theorem Tells.expression (script : QualifiedName) (text : String) :
    Tells (expression script text) := by
  intro s
  unfold ScriptCheck.expression
  rw [StateT.run_bind, StateT.run_get, pure_bind]
  dsimp only
  cases hseen : s.seen.get? text with
  | some known => exact .answer Option.or_none.symm
  | none =>
    dsimp only
    rw [StateT.run_bind, StateT.run_monadLift, bind_assoc]
    refine (Expression.sentence_reports s.table text).cases fun r => ?_
    cases r with
    | error cause =>
      have htold : unread [.expression text cause] =
          (Expression.unread (.error cause : Except _ Sentence)).or none := by
        rw [Option.or_none]
        exact List.findSome?_singleton
      exact .answer ((unread_append s.faults _).trans (congrArg _ htold))
    | ok sentence => exact .answer Option.or_none.symm

/-- Every step of the check tells of the first lookup that fails. -/
theorem telling : Stepwise fun _ x => Tells x where
  pure _ := .of_answer fun _ => ⟨_, rfl, rfl⟩
  bind := Tells.bind
  get := .of_answer fun _ => ⟨_, rfl, rfl⟩
  fault := Tells.fault
  declare := Tells.declare
  note _ := .of_answer fun _ => ⟨_, rfl, rfl⟩
  recordType? := Tells.recordType?
  expression := Tells.expression

/-- The faults of a script tell of the first lookup that fails, and a script without faults of
none. -/
theorem check_reports (script : QualifiedName) (body : List Statement) :
    (check script body).Reports fun failed r => failed = (failureOf r).bind unread := by
  refine .bind <| (telling.statements body start).mono fun failed r hr => ?_
  obtain rfl : unread r.2.faults = failed := hr
  dsimp only
  split
  · rename_i hempty
    rw [List.isEmpty_iff.mp hempty]
    exact .answer rfl
  · exact .answer Option.or_none

end ScriptCheck

/-- The failed lookup of a record type that made the compilation of a unit fail. -/
def CompileError.lookup? (name : QualifiedName) : CompileError → Option RepositoryError
  | .typeLookup human cause => if human = name.humanName then some cause else none
  | _ => none

namespace Compile

variable {α : Type} {name : QualifiedName}

/-- The failed lookup that a compilation tells of. -/
def unread (name : QualifiedName) (r : Except CompileError α) : Option RepositoryError :=
  (failureOf r).bind (·.lookup? name)

theorem unread_typeLookup (cause : RepositoryError) :
    unread name (.error (.typeLookup name.humanName cause) : Except CompileError α) = some cause :=
  if_pos rfl

theorem unread_eq_some_iff {r : Except CompileError α} {cause : RepositoryError} :
    unread name r = some cause ↔ r = .error (.typeLookup name.humanName cause) := by
  constructor
  · intro h
    rcases r with e | a
    · cases e with
      | typeLookup human cause' =>
        obtain ⟨rfl, rfl⟩ : human = name.humanName ∧ cause' = cause := by
          simpa [unread, failureOf, CompileError.lookup?] using h
        rfl
      | _ => cases h
    · cases h
  · rintro rfl
    exact unread_typeLookup cause

theorem unread_targetUnit (unit : QualifiedName) (text : String) (source : Option String) :
    unread name (targetUnit unit text source) = none := by
  cases h : targetUnit unit text source with
  | error e =>
    obtain ⟨cause, rfl⟩ := targetUnit_eq_error h
    rfl
  | ok u => rfl

theorem lookup?_of_checkName {e : CompileError} (h : checkName name = .error e) :
    e.lookup? name = none := by
  unfold checkName at h
  split at h
  · cases h
  · cases h
    rfl

theorem expression_reports (source : String) (t : VariableTable) :
    (Compile.expression name source t).Reports fun failed r => failed = unread name r := by
  unfold Compile.expression
  split
  · rename_i e hname
    exact .answer (lookup?_of_checkName hname).symm
  · refine (Expression.translate_reports t source).cases fun r => ?_
    cases r with
    | error cause =>
      have htold : Expression.unread (.error cause : Except _ TargetCode) = cause.lookup? := rfl
      rw [htold]
      dsimp only
      cases cause.lookup? with
      | none => exact .answer rfl
      | some failure => exact .answer (unread_typeLookup failure).symm
    | ok code => exact .answer (unread_targetUnit _ _ _).symm

theorem unread_faultsError (faults : List ScriptFault) :
    unread name (.error (faultsError name faults) : Except CompileError α) =
      ScriptCheck.unread faults := by
  unfold faultsError
  cases h : faults.findSome? (·.lookup?) with
  | none => exact h.symm
  | some cause => exact (unread_typeLookup cause).trans h.symm

/-- The units of a checked script are made without asking for record types. -/
theorem unread_checkedUnits (body : String) (checked : CheckedScript) :
    unread name (checkedUnits name body checked) = none := by
  cases h : checkedUnits name body checked with
  | error e =>
    obtain ⟨unit, cause, rfl⟩ := checkedUnits_eq_error h
    rfl
  | ok c => rfl

theorem script_reports (body : String) :
    (Compile.script name body).Reports fun failed r => failed = unread name r := by
  unfold Compile.script
  split
  · rename_i e hname
    exact .answer (lookup?_of_checkName hname).symm
  split
  · exact .answer rfl
  · rename_i statements _
    refine (ScriptCheck.check_reports name statements).cases fun r => ?_
    cases r with
    | error faults => exact .answer (Option.or_none.trans (unread_faultsError faults).symm)
    | ok checked => exact .answer (unread_checkedUnits body checked).symm

theorem fieldType_reports (typeName : String) :
    (fieldType name typeName).Reports fun failed r => failed = failureOf r := by
  unfold fieldType
  split
  · split
    · exact .answer rfl
    · refine .lookup fun found => ?_
      cases found <;> exact .answer rfl
  · exact .answer rfl

theorem field_reports (fields : List FieldDefinition) (fragment : List Char) :
    (field name fields fragment).Reports fun failed r => failed = unread name r := by
  unfold field
  dsimp only
  split
  · split
    · exact .answer rfl
    · refine (fieldType_reports _).cases fun r => ?_
      rcases r with cause | _ | type
      · exact .answer (unread_typeLookup cause).symm
      · exact .answer rfl
      · dsimp only
        split <;> exact .answer rfl
  · exact .answer rfl

theorem fields_reports (before : List FieldDefinition) (fragments : List (List Char)) :
    (fields name before fragments).Reports fun failed r => failed = unread name r := by
  induction fragments generalizing before with
  | nil => exact .answer rfl
  | cons fragment rest ih =>
    refine (field_reports before fragment).cases fun r => ?_
    cases r with
    | error e => exact .answer Option.or_none
    | ok f => exact ih _

theorem recordType_reports (spec : String) :
    (Compile.recordType name spec).Reports fun failed r => failed = unread name r := by
  unfold Compile.recordType
  split
  · rename_i e hname
    exact .answer (lookup?_of_checkName hname).symm
  · refine (fields_reports [] (fragments spec)).cases fun r => ?_
    cases r with
    | error e => exact .answer Option.or_none
    | ok defined => exact .answer rfl

end Compile

namespace GenerationCache

variable {σ : Type} [CodeRepository σ]

/-- A unit that is not held yet cannot be looked up exactly when the repository cannot be read. -/
theorem recordType_eq_error_iff {c : GenerationCache σ} {unit : QualifiedName}
    (h : c.current.cached? unit = none) (cause : RepositoryError) :
    (c.recordType unit).1 = .error cause ↔
      (CodeRepository.call (.load unit) c.repository).1 = .error cause := by
  unfold recordType resolveCurrent load payload
  rw [h]
  generalize CodeRepository.call (.load unit) c.repository = reply
  rcases reply with ⟨failure | _ | payload, r⟩
  · simp
  · exact ⟨nofun, nofun⟩
  · cases hbody : Payload.load unit payload with
    | error fault => simp [hbody]
    | ok body => simp [hbody]

/-- A unit that is neither held nor stored is no record type. -/
theorem recordType_of_missing {c : GenerationCache σ} {unit : QualifiedName}
    (h : c.current.cached? unit = none)
    (hmissing : (CodeRepository.call (.load unit) c.repository).1 = .ok none) :
    (c.recordType unit).1 = .ok none := by
  unfold recordType resolveCurrent load payload
  rw [h]
  generalize CodeRepository.call (.load unit) c.repository = reply at hmissing
  obtain ⟨answer, r⟩ := reply
  obtain rfl : answer = .ok none := hmissing
  rfl

end GenerationCache

namespace Compile

variable {σ : Type} {source : QualifiedName → σ → Lookup × σ} {s : σ} {cause : RepositoryError}

/-- A computation that reports what its result tells is a failed lookup exactly when a lookup
fails. -/
theorem firstFailure_iff {x : Inquiry (Except CompileError α)}
    (h : x.Reports fun failed r => failed = unread name r) :
    x.firstFailure source s = some cause ↔
      (x.runWith source s).1 = .error (.typeLookup name.humanName cause) := by
  rw [h.runWith source s]
  exact unread_eq_some_iff

end Compile

/-- A compilation fails with a failed lookup exactly when a lookup that it makes fails, and then
with the first one that does, whatever else is wrong. Over a cache a lookup fails exactly when the
repository does. -/
theorem Compile.unreadable_first {σ : Type} (source : QualifiedName → σ → Lookup × σ) (s : σ)
    (name : QualifiedName) (cause : RepositoryError) :
    (∀ body, (Compile.script name body).firstFailure source s = some cause ↔
        ((Compile.script name body).runWith source s).1 =
          .error (.typeLookup name.humanName cause)) ∧
      (∀ text table, (Compile.expression name text table).firstFailure source s = some cause ↔
        ((Compile.expression name text table).runWith source s).1 =
          .error (.typeLookup name.humanName cause)) ∧
      (∀ spec, (Compile.recordType name spec).firstFailure source s = some cause ↔
        ((Compile.recordType name spec).runWith source s).1 =
          .error (.typeLookup name.humanName cause)) ∧
      ∀ {τ : Type} [CodeRepository τ] (c : GenerationCache τ) (unit : QualifiedName),
        c.current.cached? unit = none →
          ((c.recordType unit).1 = .error cause ↔
              (CodeRepository.call (.load unit) c.repository).1 = .error cause) ∧
            ((CodeRepository.call (.load unit) c.repository).1 = .ok none →
              (c.recordType unit).1 = .ok none) := by
  refine ⟨fun body => firstFailure_iff (script_reports body),
    fun text table => firstFailure_iff (expression_reports text table),
    fun spec => firstFailure_iff (recordType_reports spec), ?_⟩
  intro τ _ c unit h
  exact ⟨GenerationCache.recordType_eq_error_iff h cause, GenerationCache.recordType_of_missing h⟩

/-- No lookup is answered; the failures are numbered. -/
def nothingReadable (_ : QualifiedName) (n : Nat) : Lookup × Nat :=
  (.error (.access (toString n)), n + 1)

/-- A script with two lookups and other faults between them. -/
def pointless : String :=
  "DeclareInputVar(\"A\", \"Point\");\nDeclareLocalVar(\"1\", \"Integer\", \"+\");\n" ++
    "DeclareLocalVar(\"B\", \"Line\");"

theorem Compile.unreadable_first_pointless :
    ((Compile.script (.script "Calc") pointless).runWith nothingReadable 0).1 =
        .error (.typeLookup (QualifiedName.script "Calc").humanName (.access "0")) ∧
      ((GenerationCache.ofRepository NoRepository.mk 0).recordType (.record "Point")).1 =
        .ok none := by
  obtain ⟨hscript, -, -, hcache⟩ :=
    Compile.unreadable_first nothingReadable 0 (.script "Calc") (.access "0")
  exact ⟨(hscript pointless).mp (by decide +kernel), (hcache _ _ rfl).2 rfl⟩

end Scriptorium

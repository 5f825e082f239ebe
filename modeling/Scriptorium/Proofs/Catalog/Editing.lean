import Scriptorium.Proofs.Catalog.Agreement
import Scriptorium.Proofs.Catalog.Frame
import Scriptorium.Proofs.Run.Scope

/-!
# Scripts that are changed while they run

A run holds the program that it was given, but finds the expressions of the
program by name. When the script is updated or deleted between two of its
instructions, the run goes on with what is then found under these names. It ends
as it would have ended as long as no name has come to denote another expression.
What is no longer found is compiled again from its text, over the variables of
the run: it is the same as before where all declarations in front of it have
been made.
-/

namespace Scriptorium.Catalog

open Engine (Reaches Alike treeOf)
open Engine.Alike (Recompiles)
open Compile (expressions? soleCall?)

variable {e e₁ e₂ e₃ : Engine MemoryRepository} {name body : String} {c : ScriptCompilation}
  {u : ReadyUnit} {program : ScriptProgram} {values : List Value} {p : Progress}

/-- Changing a script leaves the stored record types as they are. -/
theorem Operation.storedTypes_perform {op : Operation} {script : String}
    (hop : op.revised = some (.script, script)) (h : op.perform e = (.ok (), e₁)) :
    storedTypes e₁.cache.repository.entries = storedTypes e.cache.repository.entries := by
  obtain ⟨us, hus, hsaved⟩ := perform_saved hop h
  exact storedTypes_saved rfl hus hsaved

/-- The script was intact when it was given out, and its run has passed over no declaration. -/
def Restorable (e : Engine MemoryRepository) (name : String) (e₁ : Engine MemoryRepository)
    (start : Progress) : Prop :=
  (∃ body c, e.Intact (.script name) body c) ∧ ∀ declared, ¬ e₁.PassedOver start declared

/-- The program that is given out of an intact script is the one that its body compiles to. -/
theorem program_of_intact (h : e.Intact (.script name) body c)
    (parts : Compile.Parts e.types (.script name) body c)
    (hget : e.getExecutable (.script name) none = (.ok u, e₁)) (hbody : u.body = .script program) :
    program = parts.checked.program ∧ e.Filled e₁ := by
  obtain ⟨v, e', hget', hcontent, hfilled⟩ := Engine.getExecutable_found (h.program parts) none
  rw [hget] at hget'
  cases hget'
  have hsame : u.body = .script parts.checked.program := congrArg Prod.snd hcontent
  rw [hbody] at hsame
  cases hsame
  exact ⟨rfl, hfilled⟩

/-- The run of an intact script comes to expressions whose texts compile to the script's own units,
as long as it has passed over no declaration. -/
theorem recompiles_of_intact {types : Registry}
    (parts : Compile.Parts types (.script name) body c)
    (hpassed : ∀ declared, ¬ e₁.PassedOver ⟨parts.checked.program.statements, .withInputs values⟩
      declared)
    (hrun : Reaches e₁ ⟨parts.checked.program.statements, .withInputs values⟩ e₂ p) :
    e₂.Ahead (Recompiles types c.expressions) p := by
  obtain ⟨⟨_, hmatches⟩, -, -⟩ := ScriptCheck.check_matches parts.check
  intro e' i rest t hnext ref href u hu hname
  have hscope := Engine.InScope.reaches (.of_matches hmatches values) (hrun.trans hnext)
  obtain ⟨declared, kind, hagrees, hsite⟩ := hscope.sites ref href
  exact parts.recompile (hagrees.within hpassed) hsite hu hname

/-- The engines before and after a change are alike for a run that is in flight, when no expression
is changed and none is lost but of a script that can be restored. -/
theorem alike_of_kept (htypes : e₂.types = e₃.types)
    (hget : e.getExecutable (.script name) none = (.ok u, e₁)) (hbody : u.body = .script program)
    (hrun : Reaches e₁ ⟨program.statements, .withInputs values⟩ e₂ p)
    (hkept : ∀ ref ∈ Instruction.allRefs p.remaining,
      (e₂.found ref.name).map treeOf = (e₃.found ref.name).map treeOf ∨
        e₃.found ref.name = .error (.notFound ref.name) ∧
          Restorable e name e₁ ⟨program.statements, .withInputs values⟩) :
    ∃ lost, Alike lost ((Instruction.allRefs p.remaining).map (·.name)) e₂ e₃ ∧
      e₂.Ahead (Recompiles e₂.types lost) p := by
  by_cases hrestorable : Restorable e name e₁ ⟨program.statements, .withInputs values⟩
  · obtain ⟨⟨body, c, hintact⟩, hpassed⟩ := hrestorable
    obtain ⟨parts⟩ := Compile.script_eq_ok hintact.compiled
    obtain ⟨rfl, hfilled⟩ := program_of_intact hintact parts hget hbody
    obtain ⟨⟨_, hmatches⟩, -, -⟩ := ScriptCheck.check_matches parts.check
    have hsame : e₂.types = e.types := hrun.types.trans hfilled.types
    refine ⟨c.expressions, ⟨fun unit hunit => ?_, htypes⟩,
      hsame ▸ recompiles_of_intact parts hpassed hrun⟩
    obtain ⟨ref, href, rfl⟩ := List.mem_map.mp hunit
    rcases hkept ref href with hkept | ⟨hmissing, -⟩
    · exact .inl hkept
    · right
      obtain ⟨x, hx, rfl⟩ := hmatches.refs ref (hrun.refs ref href)
      obtain ⟨tree, -, hmem⟩ := parts.unit_of_mem hx
      obtain ⟨loaded, hload, hfound⟩ := hintact.found _ (List.mem_cons_of_mem c.script hmem)
      refine ⟨_, hmem, rfl, loaded, hload, hrun.found ?_, _, hmissing⟩
      rw [hfilled.found]
      exact hfound
  · refine ⟨[], ⟨fun unit hunit => ?_, htypes⟩, fun _ _ _ _ _ _ _ => nofun⟩
    obtain ⟨ref, href, rfl⟩ := List.mem_map.mp hunit
    rcases hkept ref href with hkept | ⟨-, hlost⟩
    · exact .inl hkept
    · exact absurd hlost hrestorable

/-- Nothing is found of a script that has been deleted. -/
theorem found_deleteScript {script : String} {n : Nat} (hco : e.Coherent)
    (h : deleteScript script e = (.ok n, e₁)) {unit : QualifiedName}
    (hunit : unit.package = (QualifiedName.script script).package) :
    e₁.found unit = .error (.notFound unit) := by
  have hco₁ : e₁.Coherent := by
    have hdeleted := coherent_deleteScript hco script
    rwa [h] at hdeleted
  obtain ⟨hfast, hentries⟩ := deleteScript_ok h
  have hcovers : (QualifiedName.script script).package.covers unit = true := by
    rw [← hunit]
    simp [Package.covers, QualifiedName.package]
  have hnone : e₁.cache.repository.entries.get? unit = none := by
    rw [hentries, Dictionary.get?_filterKeys, hcovers]
    rfl
  rw [hco₁.found_eq (by rw [hfast]; rfl), GenerationCache.read_eq hco₁.available, hnone]
  rfl

/-- The name and the value of an expression that stands alone and needs no variables, when the value
is an integer. -/
def soleInteger? : List PendingExpression → Option (QualifiedName × Int64)
  | [x] =>
    match Target.parseTarget x.sentence.targetCode.text.toList with
    | .error _ => none
    | .ok tree =>
      match Evaluate.expr .empty tree.reread with
      | .ok (.integer n) => some (x.name, n)
      | _ => none
  | _ => none

theorem soleInteger?_eq_some {xs : List PendingExpression} {unit : QualifiedName} {n : Int64}
    (h : soleInteger? xs = some (unit, n)) :
    ∃ x, xs = [x] ∧ x.name = unit ∧ ∃ tree,
      Target.parseTarget x.sentence.targetCode.text.toList = .ok tree ∧
        Evaluate.expr .empty tree.reread = .ok (.integer n) := by
  unfold soleInteger? at h
  split at h
  · next x =>
    split at h
    · cases h
    · next tree hparse =>
      split at h
      · next n' hvalue =>
        cases h
        exact ⟨x, rfl, rfl, tree, hparse, hvalue⟩
      · cases h
  · cases h

/-- An expression that is found is evaluated to the value of its tree. -/
theorem evaluate_of_found {unit held : QualifiedName} {tree : TargetExpr} {n : Int64}
    (hfound : e.found unit = .ok (held, .expression tree))
    (hvalue : Evaluate.expr .empty tree = .ok (.integer n)) (source : String) :
    (e.evaluate ⟨unit, source⟩ .empty).1 = .ok (.integer n) := by
  obtain ⟨u, e', hget, hcontent, -⟩ := Engine.getExecutable_found hfound
    (some (.expression source .empty))
  rw [Engine.evaluate_eq, hget]
  simp only [Engine.resolved, Except.map, hcontent, treeOf, UnitBody.expression?, Except.bind,
    Engine.valueOf, hvalue]
  rfl

/-- The only expression of an intact script is evaluated to its value. -/
theorem evaluate_of_soleInteger? (h : e.Intact (.script name) body c) {unit : QualifiedName}
    {n : Int64} (hvalue : (expressions? e.types (.script name) body).bind soleInteger? =
      some (unit, n)) (source : String) :
    (e.evaluate ⟨unit, source⟩ .empty).1 = .ok (.integer n) := by
  obtain ⟨parts⟩ := Compile.script_eq_ok h.compiled
  rw [Compile.expressions?_eq parts] at hvalue
  obtain ⟨x, hsole, rfl, tree, hparse, hexpr⟩ := soleInteger?_eq_some hvalue
  obtain ⟨tree', hparse', hfound⟩ := h.trees parts x (hsole ▸ List.mem_cons_self)
  obtain rfl : tree = tree' := Except.ok.inj (hparse.symm.trans hparse')
  exact evaluate_of_found hfound hexpr source

/-- A catalog with a script called "Calc". -/
def calculating : Engine MemoryRepository :=
  (putScript .create "Calc" Compile.assigning (.ofRepository .empty 0)).2

theorem reached_calculating : Reached calculating :=
  .perform (.start 0) (.putScript .create "Calc" Compile.assigning)

theorem types_calculating : calculating.types = storedTypes ∅ ∧
    ∃ c, calculating.Intact (.script "Calc") Compile.assigning c := by
  have hok : (putScript .create "Calc" Compile.assigning
      (.ofRepository MemoryRepository.empty 0)).1.toOption.isSome = true := by decide +kernel
  have hloads : Compile.scriptLoads (storedTypes ∅) (.script "Calc") Compile.assigning = true := by
    decide +kernel
  cases hput : putScript .create "Calc" Compile.assigning (.ofRepository MemoryRepository.empty 0) with
  | mk outcome e =>
    rw [hput] at hok
    cases outcome with
    | error cause => cases hok
    | ok inputs =>
      obtain rfl : calculating = e := congrArg Prod.snd hput
      have htypes : storedTypes calculating.cache.repository.entries = storedTypes ∅ :=
        storedTypes_putScript hput
      obtain ⟨c, hintact, -⟩ := intact_putScript (Reached.start 0).coherent hput fun c hcompile =>
        (Compile.scriptLoads_iff hcompile).mp (htypes ▸ hloads)
      exact ⟨by rw [reached_calculating.coherent.types_eq, htypes], c, hintact⟩

/-- The script is given out. Its expression bears the first number. -/
theorem getExecutable_calculating : ∃ u program e₁ ref,
    calculating.getExecutable (.script "Calc") none = (.ok u, e₁) ∧ u.body = .script program ∧
      calculating.Filled e₁ ∧
      program.statements = [.declareLocal "A" (.ofTypeName "Integer") (some ref)] ∧
      ref.name = (QualifiedName.script "Calc").expression "$1" := by
  have hcall : soleCall? Compile.assigning =
      some ⟨"DeclareLocalVar", ["A", "Integer", "1"], 1⟩ := by decide +kernel
  have hnames : (expressions? (storedTypes ∅) (.script "Calc") Compile.assigning).map
      (·.map (·.name)) = some [(QualifiedName.script "Calc").expression "$1"] := by decide +kernel
  obtain ⟨htypes, c, hintact⟩ := types_calculating
  obtain ⟨parts⟩ := Compile.script_eq_ok hintact.compiled
  obtain ⟨u, e₁, hget, hcontent, hfilled⟩ := Engine.getExecutable_found (hintact.program parts) none
  obtain ⟨x, hx, hprogram⟩ := Compile.program_of_soleCall? parts hcall
  refine ⟨u, parts.checked.program, e₁, x.ref, hget, congrArg Prod.snd hcontent, hfilled, hprogram,
    ?_⟩
  rw [← htypes, Compile.expressions?_eq parts] at hnames
  have hname : x.name ∈ parts.checked.expressions.map (·.name) := List.mem_map_of_mem hx
  have hnames : parts.checked.expressions.map (·.name) =
      [(QualifiedName.script "Calc").expression "$1"] := Option.some.inj hnames
  rw [hnames] at hname
  exact List.mem_singleton.mp hname

/-- A script like `Compile.assigning`, with another value. -/
def reassigning : String := "DeclareLocalVar(\"A\", \"Integer\", \"2\");"

/-- The value of a local when a run has been completed. -/
def outcome? (name : String) (outcome : Except ExecutionError VariableTable) : Option Value :=
  outcome.toOption.bind fun t => (t.getLocal? name).map (·.value)

/-- A run that does no more than declare an integer with an initial value ends with this value. -/
theorem outcome?_finish {ref : ExprRef} {n : Int64}
    (h : (e.evaluate ref .empty).1 = .ok (.integer n)) :
    outcome? "A" (e.finish ⟨[.declareLocal "A" (.ofTypeName "Integer") (some ref)],
      .withInputs []⟩).1 = some (.integer n) := by
  cases hvalue : e.evaluate ref .empty with
  | mk value e' =>
    rw [hvalue] at h
    obtain rfl : value = .ok (.integer n) := h
    have hempty : VariableTable.withInputs [] = .empty := rfl
    have htype : SemanticType.ofTypeName "Integer" = .primitive .integer := by decide
    have hdeclared : Engine.onVariables (VariableTable.empty.declareLocal "A" (.primitive .integer)) =
        .ok (VariableTable.empty.setLocal "A" ⟨.primitive .integer, .null⟩) := rfl
    have hassigned : Engine.onVariables ((VariableTable.empty.setLocal "A"
        ⟨.primitive .integer, .null⟩).assign "A" (.integer n)) =
        .ok ((VariableTable.empty.setLocal "A" ⟨.primitive .integer, .null⟩).setLocal "A"
          ⟨.primitive .integer, .integer n⟩) := rfl
    rw [Engine.finish_cons, Engine.advance, Engine.declareLocal, hempty, hvalue, htype]
    simp only [hdeclared, hassigned, Engine.resume, Engine.finish_nil]
    simp [outcome?, Except.toOption, VariableTable.getLocal?, VariableTable.setLocal]

/-- A script may be updated or deleted while it runs. The run goes on as if nothing had happened
when the expressions ahead of it are found as before, or are gone and can be restored. -/
theorem Operation.perform_unnoticed (hreached : Reached e)
    (hget : e.getExecutable (.script name) none = (.ok u, e₁)) (hbody : u.body = .script program)
    (hrun : Reaches e₁ ⟨program.statements, .withInputs values⟩ e₂ p) {op : Operation}
    {script : String} (hop : op.revised = some (.script, script))
    (hperform : op.perform e₂ = (.ok (), e₃))
    (hkept : ∀ ref ∈ Instruction.allRefs p.remaining,
      (e₂.found ref.name).map treeOf = (e₃.found ref.name).map treeOf ∨
        e₃.found ref.name = .error (.notFound ref.name) ∧
          Restorable e name e₁ ⟨program.statements, .withInputs values⟩) :
    (∀ e' i rest t, Reaches e₂ p e' ⟨i :: rest, t⟩ → ∃ e'', Reaches e₃ p e'' ⟨i :: rest, t⟩ ∧
      ∀ ref ∈ i.operands, (e''.evaluate ref t).1 = (e'.evaluate ref t).1) ∧
    (e₃.finish p).1 = (e₁.finish ⟨program.statements, .withInputs values⟩).1 := by
  have hco₁ : e₁.Coherent := by
    have hco : (e.getExecutable (.script name) none).2.Coherent :=
      hreached.coherent.getExecutable nofun
    rwa [hget] at hco
  have hco₂ : e₂.Coherent := Reaches.keeps (fun _ ref t h => h.evaluate ref t)
    (fun s unit h => h.filled (s.recordType_spec unit).2) hco₁ hrun
  have hco₃ : e₃.Coherent := by
    have hco := coherent_perform hco₂ op
    rwa [hperform] at hco
  have htypes : e₂.types = e₃.types := by
    rw [hco₂.types_eq, hco₃.types_eq, storedTypes_perform hop hperform]
  obtain ⟨lost, halike, hrecompiles⟩ := alike_of_kept htypes hget hbody hrun hkept
  have hahead : e₂.Ahead (fun ref t => ref.name ∈ (Instruction.allRefs p.remaining).map (·.name) ∧
      Recompiles e₂.types lost ref t) p := by
    intro e' i rest t hnext ref href
    exact ⟨List.mem_map_of_mem (Engine.ahead_refs e₂ p e' i rest t hnext ref href),
      hrecompiles e' i rest t hnext ref href⟩
  have hlockstep := Alike.lockstep (σ := MemoryRepository) (τ := MemoryRepository) e₂.types lost
    ((Instruction.allRefs p.remaining).map (·.name))
  constructor
  · intro e' i rest t hnext
    obtain ⟨e'', hnext', halike'⟩ := hlockstep.reaches ⟨rfl, halike⟩ hahead hnext
    exact ⟨e'', hnext', fun ref href =>
      (hlockstep.evaluate halike' (hahead _ _ _ _ hnext ref href)).1.symm⟩
  · rw [hrun.finish_eq]
    exact (hlockstep.finish ⟨rfl, halike⟩ hahead).1.symm

theorem Operation.perform_unnoticed_deleting : ∃ u program e₁ e₃, Reached calculating ∧
    calculating.getExecutable (.script "Calc") none = (.ok u, e₁) ∧ u.body = .script program ∧
    Reaches e₁ ⟨program.statements, .withInputs []⟩ e₁ ⟨program.statements, .withInputs []⟩ ∧
    (Operation.deleteScript "Calc").perform e₁ = (.ok (), e₃) ∧
    (∀ ref ∈ Instruction.allRefs program.statements,
      (e₁.found ref.name).map treeOf = (e₃.found ref.name).map treeOf ∨
        e₃.found ref.name = .error (.notFound ref.name) ∧
          Restorable calculating "Calc" e₁ ⟨program.statements, .withInputs []⟩) ∧
    (∀ e' i rest t, Reaches e₁ ⟨program.statements, .withInputs []⟩ e' ⟨i :: rest, t⟩ →
      ∃ e'', Reaches e₃ ⟨program.statements, .withInputs []⟩ e'' ⟨i :: rest, t⟩ ∧
        ∀ ref ∈ i.operands, (e''.evaluate ref t).1 = (e'.evaluate ref t).1) ∧
    (e₃.finish ⟨program.statements, .withInputs []⟩).1 =
      (e₁.finish ⟨program.statements, .withInputs []⟩).1 := by
  obtain ⟨-, c, hintact⟩ := types_calculating
  obtain ⟨u, program, e₁, ref, hget, hbody, hfilled, hprogram, hname⟩ := getExecutable_calculating
  have hok : (Catalog.deleteScript "Calc" calculating).1.toOption.isSome = true := by decide +kernel
  rw [fst_deleteScript, ← hfilled.cache.repository, ← fst_deleteScript] at hok
  cases hdelete : Catalog.deleteScript "Calc" e₁ with
  | mk outcome e₃ =>
    rw [hdelete] at hok
    cases outcome with
    | error cause => cases hok
    | ok n =>
      have hperform : (Operation.deleteScript "Calc").perform e₁ = (.ok (), e₃) := by
        simp only [Operation.perform, Operation.report, hdelete]
        rfl
      have hpassed : ∀ declared, ¬ e₁.PassedOver ⟨program.statements, .withInputs []⟩ declared := by
        intro declared hpassed
        obtain ⟨i, hi, hdeclares⟩ := hpassed.declaresInBranch
        rw [hprogram] at hi
        obtain rfl := List.mem_singleton.mp hi
        exact hdeclares
      have hkept : ∀ ref ∈ Instruction.allRefs program.statements,
          (e₁.found ref.name).map treeOf = (e₃.found ref.name).map treeOf ∨
            e₃.found ref.name = .error (.notFound ref.name) ∧
              Restorable calculating "Calc" e₁ ⟨program.statements, .withInputs []⟩ := by
        intro ref' href
        rw [hprogram] at href
        obtain rfl := List.mem_singleton.mp href
        rw [hname]
        exact .inr ⟨found_deleteScript (reached_calculating.coherent.filled hfilled) hdelete rfl,
          ⟨_, c, hintact⟩, hpassed⟩
      exact ⟨u, program, e₁, e₃, reached_calculating, hget, hbody, .refl _ _, hperform, hkept,
        Operation.perform_unnoticed reached_calculating hget hbody (.refl _ _) rfl hperform hkept⟩

/-- A script that is updated while it runs can come to another end. -/
theorem Operation.perform_noticed : ∃ u program e₁ e₃, Reached calculating ∧
    calculating.getExecutable (.script "Calc") none = (.ok u, e₁) ∧ u.body = .script program ∧
    Reaches e₁ ⟨program.statements, .withInputs []⟩ e₁ ⟨program.statements, .withInputs []⟩ ∧
    (Operation.putScript .update "Calc" reassigning).perform e₁ = (.ok (), e₃) ∧
    outcome? "A" (e₁.finish ⟨program.statements, .withInputs []⟩).1 = some (.integer 1) ∧
    outcome? "A" (e₃.finish ⟨program.statements, .withInputs []⟩).1 = some (.integer 2) := by
  obtain ⟨htypes, c, hintact⟩ := types_calculating
  obtain ⟨u, program, e₁, ⟨unit, source⟩, hget, hbody, hfilled, hprogram, rfl⟩ :=
    getExecutable_calculating
  have hok : (Catalog.putScript .update "Calc" reassigning calculating).1.toOption.isSome = true := by
    decide +kernel
  have hloads : Compile.scriptLoads (storedTypes ∅) (.script "Calc") reassigning = true := by
    decide +kernel
  have hvalue : (expressions? (storedTypes ∅) (.script "Calc") Compile.assigning).bind soleInteger? =
      some ((QualifiedName.script "Calc").expression "$1", 1) := by decide +kernel
  have hvalue' : (expressions? (storedTypes ∅) (.script "Calc") reassigning).bind soleInteger? =
      some ((QualifiedName.script "Calc").expression "$1", 2) := by decide +kernel
  have hintact₁ : e₁.Intact (.script "Calc") Compile.assigning c := hintact.filled hfilled
  have htypes₁ : e₁.types = storedTypes ∅ := hfilled.types.trans htypes
  rw [Catalog.putScript, fst_put, ← hfilled.types, ← hfilled.cache.repository, ← fst_put] at hok
  have hco₁ := reached_calculating.coherent.filled hfilled
  cases hput : Catalog.putScript .update "Calc" reassigning e₁ with
  | mk outcome e₃ =>
    rw [← Catalog.putScript, hput] at hok
    cases outcome with
    | error cause => cases hok
    | ok inputs =>
      have hperform : (Operation.putScript .update "Calc" reassigning).perform e₁ = (.ok (), e₃) := by
        simp only [Operation.perform, Operation.report, hput]
        rfl
      have htypes₃ : storedTypes e₃.cache.repository.entries = storedTypes ∅ := by
        rw [storedTypes_putScript hput, ← hco₁.types_eq, hfilled.types, htypes]
      obtain ⟨c', hintact', -⟩ := intact_putScript hco₁ hput fun c hcompile =>
        (Compile.scriptLoads_iff hcompile).mp (htypes₃ ▸ hloads)
      have htypes' : e₃.types = storedTypes ∅ := by
        rw [(coherent_putScript hco₁ hput).types_eq, htypes₃]
      refine ⟨u, program, e₁, e₃, reached_calculating, hget, hbody, .refl _ _, hperform, ?_, ?_⟩
      · rw [hprogram]
        exact outcome?_finish (evaluate_of_soleInteger? hintact₁ (htypes₁ ▸ hvalue) source)
      · rw [hprogram]
        exact outcome?_finish (evaluate_of_soleInteger? hintact' (htypes' ▸ hvalue') source)

end Scriptorium.Catalog

import Scriptorium.Proofs.Script.Walk
import Scriptorium.Proofs.Unit.Compilation

/-!
# The faults of a script

A script that does not compile is refused with all its faults. Those of its
expressions are told by the script's texts and the declarations in front of them
alone: each text that does not translate where it first occurs has one fault, at
the place of that occurrence, whatever else is wrong around it. More statements
at the end of a script add faults behind those found so far.
-/

namespace Scriptorium

/-- The texts of a script that do not translate where they first occur, with their errors. -/
def Statement.untranslated (types : Registry) (body : List Statement) :
    List (String × TranslationError) :=
  (Occurrence.firsts (allOccurrences types .empty body)).filterMap (·.untranslated? types)

namespace ScriptFault

theorem map_untranslated? (f : ScriptFault) : f.untranslated?.map (·.2) = f.translation? := by
  cases f <;> rfl

theorem message_of_untranslated? {f : ScriptFault} {text : String} {cause : TranslationError}
    (h : f.untranslated? = some (text, cause)) :
    f.message = s!"Could not parse expression [{text}]: {cause.message}" := by
  cases f with
  | expression source cause' =>
    cases h
    rfl
  | _ => cases h

/-- The messages of the faults of expressions, in order. -/
theorem map_message_expressions (faults : List ScriptFault) :
    (faults.filter (·.translation?.isSome)).map (·.message) =
      (faults.filterMap (·.untranslated?)).map fun found =>
        s!"Could not parse expression [{found.1}]: {found.2.message}" := by
  induction faults with
  | nil => rfl
  | cons f faults ih =>
    have htranslation := f.map_untranslated?
    cases hf : f.untranslated? with
    | none =>
      rw [hf, Option.map_none] at htranslation
      rw [List.filterMap_cons_none hf, ← ih]
      simp only [List.filter_cons, ← htranslation, Option.isSome_none, Bool.false_eq_true, if_false]
    | some found =>
      rw [hf, Option.map_some] at htranslation
      rw [List.filterMap_cons_some hf, List.map_cons, ← ih, ← message_of_untranslated? hf]
      simp only [List.filter_cons, ← htranslation, Option.isSome_some, if_true, List.map_cons]

end ScriptFault

namespace ScriptCheck

/-- The faults that the check of a script finds. -/
def faultsOf (types : Registry) (script : QualifiedName) (body : List Statement) :
    List ScriptFault :=
  (failureOf ((check script body).run types)).getD []

variable {types : Registry} {script : QualifiedName}

theorem faultsOf_eq (body : List Statement) :
    faultsOf types script body = (eval types (statements script body) start).2.faults := by
  rw [faultsOf, run_check]
  split
  · next h => exact h.symm
  · rfl

/-- The check goes on behind some statements from the state in which they leave it. -/
theorem eval_statements_append (before after : List Statement) (s : ScriptCheck) :
    (eval types (statements script (before ++ after)) s).2 =
      (eval types (statements script after) (eval types (statements script before) s).2).2 := by
  induction before generalizing s with
  | nil =>
    unfold statements
    rfl
  | cons st rest ih =>
    simp only [List.cons_append, statements, eval_bind, eval_pure]
    exact ih _

/-- More statements leave the faults found before them as they are. -/
theorem faultsOf_append (before after : List Statement) :
    faultsOf types script before <+: faultsOf types script (before ++ after) := by
  rw [faultsOf_eq, faultsOf_eq, eval_statements_append]
  exact accumulating.statements after _

/-- The faults of expressions are those of the texts that do not translate where they first
occur. -/
theorem untranslated_faultsOf (types : Registry) (script : QualifiedName) (body : List Statement) :
    (faultsOf types script body).filterMap (·.untranslated?) =
      Statement.untranslated types body := by
  rw [faultsOf_eq]
  exact (walked_statements types script body).faults

end ScriptCheck

/-- A script that is refused for its faults has, in the order of first occurrence, the errors of
the texts that do not translate where they first occur, and no other errors of expressions. Each of
them has its message among those of the faults, and the first statements of the script have the
first of the faults. -/
theorem Compile.faults_exact {types : Registry} {name : QualifiedName} {body human : String}
    {statements : List Statement} {faults : List ScriptFault}
    (hparse : Script.parseScript body.toList = .ok statements)
    (hcompile : (Compile.script name body).run types = .error (.script human faults)) :
    faults.filterMap (·.translation?) = (Statement.untranslated types statements).map (·.2) ∧
      (faults.filter (·.translation?.isSome)).map (·.message) =
        (Statement.untranslated types statements).map (fun found =>
          s!"Could not parse expression [{found.1}]: {found.2.message}") ∧
      ∀ before after, statements = before ++ after →
        ScriptCheck.faultsOf types name before <+: faults := by
  have hfaults : faults = ScriptCheck.faultsOf types name statements := by
    rw [ScriptCheck.faultsOf, script_eq_faults hparse hcompile]
    rfl
  subst hfaults
  refine ⟨?_, ?_, ?_⟩
  · rw [← ScriptCheck.untranslated_faultsOf types name, List.map_filterMap]
    simp only [ScriptFault.map_untranslated?]
  · rw [ScriptFault.map_message_expressions, ScriptCheck.untranslated_faultsOf]
  · rintro before after rfl
    exact ScriptCheck.faultsOf_append before after

/-- A script with a text that fails twice, in a statement with another fault and in a condition. -/
def broken : String :=
  "DeclareLocalVar(\"1\", \"Integer\", \"+\");\n" ++
    "if (EqualCondition(\"+\", \"C\")) \x7b SetLocalVar(\"D\", \"C\"); \x7d"

theorem Compile.faults_exact_broken : ∃ statements faults,
    Script.parseScript broken.toList = .ok statements ∧
      (Compile.script (.script "Calc") broken).run (fun _ => .ok none) =
        .error (.script (QualifiedName.script "Calc").humanName faults) ∧
      faults.filterMap (·.translation?) = [.unexpectedToken "+", .unexpectedToken "C"] ∧
      ScriptCheck.faultsOf (fun _ => .ok none) (.script "Calc") (statements.take 1) <+: faults := by
  have htexts : (Script.parseScript broken.toList).toOption.map (fun statements =>
      (Statement.untranslated (fun _ => .ok none) statements).map (·.2)) =
        some [.unexpectedToken "+", .unexpectedToken "C"] := by decide +kernel
  cases hparse : Script.parseScript broken.toList with
  | error place =>
    rw [hparse] at htexts
    cases htexts
  | ok statements =>
    rw [hparse] at htexts
    have hfails : (match (Compile.script (.script "Calc") broken).run (fun _ => .ok none) with
      | .error (.script human _) => human = (QualifiedName.script "Calc").humanName
      | _ => false) = true := by decide +kernel
    split at hfails
    · next human faults hcompile =>
      obtain ⟨htranslations, -, hbefore⟩ := Compile.faults_exact hparse hcompile
      obtain rfl : human = (QualifiedName.script "Calc").humanName := by simpa using hfails
      refine ⟨statements, faults, rfl, hcompile, ?_, ?_⟩
      · rw [htranslations]
        exact Option.some.inj htexts
      · exact hbefore _ _ (List.take_append_drop 1 statements).symm
    · cases hfails

end Scriptorium

import Mathlib.Data.List.Nodup
import Scriptorium.Proofs.Script.Walk
import Scriptorium.Proofs.Unit.Compilation

/-!
# Programs mirror their scripts

The program of a script that compiles has one instruction for each statement,
with the names and arguments that are written there, and a reference wherever an
expression is written. The units of the expressions are one for each text, in
the order in which the texts first occur, and no two of them share a name.
-/

namespace Scriptorium

/-- The reference is to the one unit that is made from the text. -/
def Refers (units : List CompiledUnit) (text : String) (ref : ExprRef) : Prop :=
  ref.source = text ∧ ∃ u ∈ units, u.source = some text ∧ u.name = ref.name ∧
    ∀ v ∈ units, v.source = some text → v = u

/-- The instructions are those that the statements spell, one for each. -/
inductive Mirrors (units : List CompiledUnit) : List Statement → List Instruction → Prop
  | nil : Mirrors units [] []
  | declareInput {name typeName : String} {line : Nat} {rest : List Statement}
    {is : List Instruction} (k : Mirrors units rest is) :
    Mirrors units (.call ⟨"DeclareInputVar", [name, typeName], line⟩ :: rest)
      (.declareInput name (.ofTypeName typeName) :: is)
  | declareLocal {name typeName : String} {line : Nat} {rest : List Statement}
    {is : List Instruction} (k : Mirrors units rest is) :
    Mirrors units (.call ⟨"DeclareLocalVar", [name, typeName], line⟩ :: rest)
      (.declareLocal name (.ofTypeName typeName) none :: is)
  | initLocal {name typeName text : String} {line : Nat} {ref : ExprRef} {rest : List Statement}
    {is : List Instruction} (h : Refers units text ref) (k : Mirrors units rest is) :
    Mirrors units (.call ⟨"DeclareLocalVar", [name, typeName, text], line⟩ :: rest)
      (.declareLocal name (.ofTypeName typeName) (some ref) :: is)
  | setLocal {target text : String} {line : Nat} {ref : ExprRef} {rest : List Statement}
    {is : List Instruction} (h : Refers units text ref) (k : Mirrors units rest is) :
    Mirrors units (.call ⟨"SetLocalVar", [target, text], line⟩ :: rest)
      (.setLocal target ref :: is)
  | branch {comparison : Comparison} {leftText rightText : String} {description : Option String}
    {line : Nat} {left right : ExprRef} {thenBranch elseBranch rest : List Statement}
    {is₁ is₂ is : List Instruction} (hleft : Refers units leftText left)
    (hright : Refers units rightText right) (hthen : Mirrors units thenBranch is₁)
    (helse : Mirrors units elseBranch is₂) (k : Mirrors units rest is) :
    Mirrors units
      (.branch ⟨comparison.callName, leftText :: rightText :: description.toList, line⟩
        thenBranch elseBranch :: rest)
      (.branch ⟨comparison, left, right, description⟩ is₁ is₂ :: is)

namespace ScriptCheck

variable {types : Registry} {script : QualifiedName}

/-- The expressions of a checked script are one for each text, in order of first occurrence. -/
theorem check_sources {body : List Statement} {checked : CheckedScript}
    (h : (check script body).run types = .ok checked) :
    checked.expressions.map (·.source) = (Statement.allTexts body).eraseDups ∧
      (checked.expressions.map (·.source)).Nodup := by
  rw [run_check] at h
  split at h
  · next hclean =>
    cases h
    rw [(walked_statements types script body).sources hclean]
    refine ⟨?_, Occurrence.nodup_text_firsts _⟩
    rw [Occurrence.map_text_firsts, Statement.map_text_allOccurrences]
  · cases h

end ScriptCheck

/-- Where every member is carried to one that has its image, the images are the same. -/
theorem map_eq_of_mapM {α β γ ε : Type} {f : α → Except ε β} {g : β → γ} {h : α → γ}
    (hfg : ∀ a b, f a = .ok b → g b = h a) {as : List α} {bs : List β}
    (hmap : as.mapM f = .ok bs) : bs.map g = as.map h := by
  have hall := Compile.forall₂_of_mapM hmap
  clear hmap
  induction hall with
  | nil => rfl
  | cons hb _ ih => rw [List.map_cons, List.map_cons, ih, hfg _ _ hb]

namespace Compile.Parts

variable {types : Registry} {name : QualifiedName} {body : String} {c : ScriptCompilation}

/-- The units of a script bear the names of its expressions. -/
theorem map_name (p : Parts types name body c) :
    c.expressions.map (·.name) = p.checked.expressions.map (·.name) := by
  refine map_eq_of_mapM (fun e u hunit => ?_) p.units
  obtain ⟨tree, -, rfl⟩ := targetUnit_eq_ok hunit
  rfl

/-- The units of a script are made from the texts of its expressions. -/
theorem map_source (p : Parts types name body c) :
    c.expressions.map (·.source) = (p.checked.expressions.map (·.source)).map some := by
  rw [List.map_map]
  refine map_eq_of_mapM (fun e u hunit => ?_) p.units
  obtain ⟨tree, -, rfl⟩ := targetUnit_eq_ok hunit
  rfl

/-- No two units of a script are made from one text. -/
theorem nodup_source (p : Parts types name body c) : (c.expressions.map (·.source)).Nodup := by
  rw [p.map_source]
  exact (ScriptCheck.check_sources p.check).2.map (Option.some_injective _)

/-- No two units of a script have one name. -/
theorem nodup_name (p : Parts types name body c) : (c.expressions.map (·.name)).Nodup := by
  obtain ⟨-, -, hunits⟩ := ScriptCheck.check_matches p.check
  rw [p.map_name]
  exact (List.Nodup.of_map _ (ScriptCheck.check_sources p.check).2).map_on
    fun e he e' he' => (hunits e he).2 e' he'

/-- A reference of the program is to the one unit of its text. -/
theorem refers (p : Parts types name body c) {t : VariableTable} {text : String} {ref : ExprRef}
    {kind : ResultKind} (h : ScriptCheck.Site types p.checked.expressions t text ref kind) :
    Refers c.expressions text ref := by
  obtain ⟨e, he, rfl, rfl, -⟩ := h
  obtain ⟨tree, -, hmem⟩ := p.unit_of_mem he
  refine ⟨rfl, _, hmem, rfl, rfl, fun v hv hsource => ?_⟩
  exact List.inj_on_of_nodup_map p.nodup_source hv hmem hsource

theorem mirrors (p : Parts types name body c) {t t' : VariableTable} {ss : List Statement}
    {is : List Instruction} (h : ScriptCheck.Matches types p.checked.expressions t ss is t') :
    Mirrors c.expressions ss is := by
  induction h with
  | nil => exact .nil
  | declareInput _ _ _ _ ih => exact .declareInput ih
  | declareLocal _ _ _ _ ih => exact .declareLocal ih
  | initLocal _ _ _ hsite _ _ ih => exact .initLocal (p.refers hsite) ih
  | setLocal _ hsite _ _ ih => exact .setLocal (p.refers hsite) ih
  | @branch _ _ _ _ call condition _ _ _ _ _ _ hcondition _ _ _ ih₁ ih₂ ih =>
    obtain ⟨hname, hargs, left, right, hleft, hright, -⟩ := hcondition
    obtain ⟨callName, args, line⟩ := call
    obtain rfl : callName = _ := hname
    obtain rfl : args = _ := hargs
    exact .branch (p.refers hleft) (p.refers hright) ih₁ ih₂ ih

end Compile.Parts

/-- A script that compiles has a program that mirrors its statements, and one unit for each of its
texts, in order of first occurrence, under a name of its own. A script that is compiled under the
name of a script shares its name with none of them. -/
theorem Compile.script_mirrored {types : Registry} {name : QualifiedName} {body : String}
    {statements : List Statement} {c : ScriptCompilation}
    (hparse : Script.parseScript body.toList = .ok statements)
    (hcompile : (Compile.script name body).run types = .ok c) :
    ∃ program, c.script = .ofBody name (.script program) (some body) (some c.inputs) ∧
      Mirrors c.expressions statements program.statements ∧
      c.expressions.map (·.source) = (Statement.allTexts statements).eraseDups.map some ∧
      (c.expressions.map (·.name)).Nodup ∧
      (name.discriminator = none → c.script.name ∉ c.expressions.map (·.name)) := by
  obtain ⟨p⟩ := Compile.script_eq_ok hcompile
  obtain rfl : p.statements = statements := Except.ok.inj (p.parsed.symm.trans hparse)
  obtain ⟨⟨t, hmatches⟩, -, hunits⟩ := ScriptCheck.check_matches p.check
  refine ⟨p.checked.program, p.inputs ▸ p.script, p.mirrors hmatches, ?_, p.nodup_name, ?_⟩
  · rw [p.map_source, (ScriptCheck.check_sources p.check).1]
  intro hname hmem
  rw [p.map_name] at hmem
  obtain ⟨e, he, hsame⟩ := List.mem_map.mp hmem
  obtain ⟨⟨d, hd⟩, -⟩ := hunits e he
  rw [hd, p.script] at hsame
  have hnone := hname.symm.trans (congrArg QualifiedName.discriminator hsame).symm
  cases hnone

/-- A script in which texts recur, in a condition and in a branch. -/
def recurring : String :=
  "DeclareLocalVar(\"A\", \"Integer\", \"1\");\n" ++
    "if (EqualCondition(\"A + 1\", \"1\")) \x7b SetLocalVar(\"A\", \"A + 1\"); \x7d"

theorem Compile.script_mirrored_recurring : ∃ statements c program,
    Script.parseScript recurring.toList = .ok statements ∧
      (Compile.script (.script "Calc") recurring).run (fun _ => .ok none) = .ok c ∧
      Mirrors c.expressions statements (ScriptProgram.statements program) ∧
      c.expressions.map (·.source) = [some "1", some "A + 1"] ∧
      c.script.name ∉ c.expressions.map (·.name) := by
  have htexts : (Script.parseScript recurring.toList).toOption.map (fun statements =>
      (Statement.allTexts statements).eraseDups.map some) = some [some "1", some "A + 1"] := by
    decide +kernel
  have hcompiles : ((Compile.script (.script "Calc") recurring).run
      fun _ => .ok none).toOption.isSome = true := by decide +kernel
  cases hparse : Script.parseScript recurring.toList with
  | error place =>
    rw [hparse] at htexts
    cases htexts
  | ok statements =>
    rw [hparse] at htexts
    cases hcompile : (Compile.script (.script "Calc") recurring).run fun _ => .ok none with
    | error cause =>
      rw [hcompile] at hcompiles
      cases hcompiles
    | ok c =>
      obtain ⟨program, -, hmirrors, hsources, -, hname⟩ := Compile.script_mirrored hparse hcompile
      exact ⟨statements, c, program, rfl, rfl, hmirrors, hsources.trans (Option.some.inj htexts),
        hname rfl⟩

/-- A script with one expression. -/
def single : String := "DeclareLocalVar(\"A\", \"Integer\");\nSetLocalVar(\"A\", \"A\");"

/-- A script that is compiled under the name of one of its own expressions shares that name. -/
theorem Compile.script_shares_name : ∃ c,
    (Compile.script ((QualifiedName.script "Calc").expression "A") single).run
        (fun _ => .ok none) = .ok c ∧
      c.script.name ∈ c.expressions.map (·.name) := by
  have hshares : ((Compile.script ((QualifiedName.script "Calc").expression "A") single).run
      fun _ => .ok none).toOption.any (fun c => c.script.name ∈ c.expressions.map (·.name)) =
        true := by decide +kernel
  cases hcompile : (Compile.script ((QualifiedName.script "Calc").expression "A") single).run
      fun _ => .ok none with
  | error cause =>
    rw [hcompile] at hshares
    cases hshares
  | ok c =>
    rw [hcompile] at hshares
    exact ⟨c, rfl, of_decide_eq_true hshares⟩

end Scriptorium

import Scriptorium.Proofs.Unit.Compilation

/-!
# Units that load

Whether a unit loads is decided by the document of its body: it loads when the
document can be read back to a body of the kind that the unit's name denotes.
The texts of payloads and their digests need not be computed for that, nor for
the program and the expressions of a script.
-/

namespace Scriptorium

open Json

/-- The body is read back from its document as one that belongs under the name. -/
def UnitBody.loads (name : QualifiedName) (body : UnitBody) : Bool :=
  match ofJson? depthLimit body.toJson with
  | none => false
  | some loaded => loaded.kind = name.kind && loaded.recordType?.all (·.name = name)

theorem CompiledUnit.load_iff {name : QualifiedName} {body : UnitBody} {source : Option String}
    {inputs : Option InputManifest} :
    (∃ loaded, (ofBody name body source inputs).load = .ok loaded) ↔ body.loads name = true := by
  simp only [load_ofBody_eq_ok, Payload.load_eq_ok, Payload.decode_encode, UnitBody.loads]
  cases UnitBody.ofJson? depthLimit body.toJson with
  | none => simp
  | some b =>
    simp only [Option.some.injEq, Bool.and_eq_true, decide_eq_true_eq, exists_eq_left']
    refine and_congr_right fun _ => ?_
    cases b with
    | record t => simp [UnitBody.recordType?]
    | _ => simp [UnitBody.recordType?]

namespace Compile

/-- The expressions of a script load when their trees are read back. -/
theorem Parts.load_expressions {types : Registry} {name : QualifiedName} {body : String}
    {c : ScriptCompilation} (p : Parts types name body c)
    (h : ∀ x ∈ p.checked.expressions, ∀ tree,
      Target.parseTarget x.sentence.targetCode.text.toList = .ok tree →
        (UnitBody.expression tree).loads x.name = true) :
    ∀ u ∈ c.expressions, ∃ loaded, u.load = .ok loaded := by
  intro u hu
  obtain ⟨x, hx, tree, hparse, rfl⟩ := p.mem_of_unit hu
  exact CompiledUnit.load_iff.mpr (h x hx tree hparse)

/-- A script does not load under the name of anything else. -/
theorem Parts.load_misnamed {types : Registry} {name : QualifiedName} {body : String}
    {c : ScriptCompilation} (p : Parts types name body c) (hkind : name.kind ≠ .script) :
    ∃ fault, c.script.load = .error fault := by
  cases hload : c.script.load with
  | error fault => exact ⟨fault, rfl⟩
  | ok loaded =>
    rw [p.script] at hload
    exact absurd (CompiledUnit.kind_of_load_ofBody hload).2 hkind

/-- The units of a script load, as far as the script compiles. -/
def scriptLoads (types : Registry) (name : QualifiedName) (body : String) : Bool :=
  match Script.parseScript body.toList with
  | .error _ => false
  | .ok statements =>
    match (ScriptCheck.check name statements).run types with
    | .error _ => false
    | .ok checked =>
      (UnitBody.script checked.program).loads name &&
        checked.expressions.all fun x =>
          match Target.parseTarget x.sentence.targetCode.text.toList with
          | .error _ => true
          | .ok tree => (UnitBody.expression tree).loads x.name

theorem scriptLoads_iff {types : Registry} {name : QualifiedName} {body : String}
    {c : ScriptCompilation} (h : (Compile.script name body).run types = .ok c) :
    scriptLoads types name body = true ↔ ∀ u ∈ c.units, ∃ loaded, u.load = .ok loaded := by
  obtain ⟨p⟩ := script_eq_ok h
  unfold scriptLoads
  simp only [p.parsed, p.check, Bool.and_eq_true, List.all_eq_true, ScriptCompilation.units,
    List.mem_cons, forall_eq_or_imp, p.script, CompiledUnit.load_iff]
  refine and_congr_right fun _ => ⟨fun hall u hu => ?_, fun hall x hx => ?_⟩
  · obtain ⟨x, hx, tree, hparse, rfl⟩ := p.mem_of_unit hu
    have hloads := hall x hx
    rw [hparse] at hloads
    exact CompiledUnit.load_iff.mpr hloads
  · obtain ⟨tree, hparse, hunit⟩ := p.unit_of_mem hx
    rw [hparse]
    exact CompiledUnit.load_iff.mp (hall _ hunit)

/-- A script that compiles to units that load. -/
theorem exists_of_scriptLoads {types : Registry} {name : QualifiedName} {body : String}
    (hcompiles : ((Compile.script name body).run types).toOption.isSome = true)
    (hloads : scriptLoads types name body = true) :
    ∃ c, (Compile.script name body).run types = .ok c ∧
      ∀ u ∈ c.units, ∃ loaded, u.load = .ok loaded := by
  cases hcompile : (Compile.script name body).run types with
  | error cause =>
    rw [hcompile] at hcompiles
    cases hcompiles
  | ok c => exact ⟨c, rfl, (scriptLoads_iff hcompile).mp hloads⟩

/-- The call of a script that has no more. -/
def soleCall? (body : String) : Option Call :=
  match Script.parseScript body.toList with
  | .ok [.call c] => some c
  | _ => none

theorem parseScript_of_soleCall? {body : String} {call : Call} (h : soleCall? body = some call) :
    Script.parseScript body.toList = .ok [.call call] := by
  unfold soleCall? at h
  split at h
  · next hparse =>
    cases h
    exact hparse
  · cases h

/-- The program of a script that does no more than declare a local with an initial value. -/
theorem program_of_soleCall? {types : Registry} {name : QualifiedName} {body : String}
    {c : ScriptCompilation} {target typeName source : String} {line : Nat}
    (parts : Parts types name body c)
    (h : soleCall? body = some ⟨"DeclareLocalVar", [target, typeName, source], line⟩) :
    ∃ x ∈ parts.checked.expressions, parts.checked.program.statements =
      [.declareLocal target (.ofTypeName typeName) (some x.ref)] := by
  have hparsed := parts.parsed
  rw [parseScript_of_soleCall? h] at hparsed
  obtain ⟨⟨_, hmatches⟩, -, -⟩ := ScriptCheck.check_matches parts.check
  rw [← Except.ok.inj hparsed] at hmatches
  generalize parts.checked.program.statements = is at hmatches
  generalize hcall : Call.mk "DeclareLocalVar" [target, typeName, source] line = call at hmatches
  cases hmatches with
  | declareInput => simp at hcall
  | declareLocal => simp at hcall
  | initLocal _ _ _ hsite _ hrest =>
    cases hrest
    simp only [Call.mk.injEq, List.cons.injEq, true_and, and_true] at hcall
    obtain ⟨⟨rfl, rfl, -⟩, -⟩ := hcall
    obtain ⟨x, hx, -, rfl, -⟩ := hsite
    exact ⟨x, hx, rfl⟩
  | setLocal => simp at hcall

/-- The expressions of a script that can be read and checked. -/
def expressions? (types : Registry) (name : QualifiedName) (body : String) :
    Option (List PendingExpression) := do
  let ss ← (Script.parseScript body.toList).toOption
  let checked ← ((ScriptCheck.check name ss).run types).toOption
  return checked.expressions

theorem expressions?_eq {types : Registry} {name : QualifiedName} {body : String}
    {c : ScriptCompilation} (parts : Parts types name body c) :
    expressions? types name body = some parts.checked.expressions := by
  simp only [expressions?, parts.parsed, parts.check, Except.toOption, Option.bind_eq_bind,
    Option.bind_some, Option.pure_def]

/-- A script with one expression. -/
def assigning : String := "DeclareLocalVar(\"A\", \"Integer\", \"1\");"

end Compile

end Scriptorium

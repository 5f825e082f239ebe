import Scriptorium.Proofs.Catalog.History
import Scriptorium.Proofs.Engine.Compiled
import Scriptorium.Proofs.Run.Alike
import Scriptorium.Proofs.Unit.Loading

/-!
# Stored scripts run like scripts compiled on the fly

A script that has just been stored is found with all its expressions, as they
were compiled. An engine without a repository that has the same record types
compiles the same units from the script's body, so the two cannot be told apart
by runs of the script.
-/

namespace Scriptorium

/-- The instructions of a script refer to its own expressions alone. -/
theorem ScriptCheck.Matches.refs {types : Registry} {units : List PendingExpression}
    {t t' : VariableTable} {ss : List Statement} {is : List Instruction}
    (h : Matches types units t ss is t') :
    ∀ ref ∈ Instruction.allRefs is, ∃ x ∈ units, x.ref = ref := by
  have hsite {t : VariableTable} {text : String} {ref : ExprRef} {kind : ResultKind}
      (hs : Site types units t text ref kind) : ∃ x ∈ units, x.ref = ref := by
    obtain ⟨x, hx, -, href, -⟩ := hs
    exact ⟨x, hx, href⟩
  induction h with
  | nil => exact nofun
  | declareInput _ _ _ _ ih => exact ih
  | declareLocal _ _ _ _ ih => exact ih
  | initLocal _ _ _ hs _ _ ih =>
    intro ref href
    rcases List.mem_cons.mp href with rfl | href
    · exact hsite hs
    · exact ih ref href
  | setLocal _ hs _ _ ih =>
    intro ref href
    rcases List.mem_cons.mp href with rfl | href
    · exact hsite hs
    · exact ih ref href
  | branch hcondition _ _ _ ih₁ ih₂ ih =>
    obtain ⟨left, right, hleft, hright, -⟩ := hcondition.sites
    intro ref href
    simp only [Instruction.allRefs, Instruction.refs, List.mem_append, List.mem_cons] at href
    rcases href with (rfl | rfl | href | href) | href
    · exact hsite hleft
    · exact hsite hright
    · exact ih₁ ref href
    · exact ih₂ ref href
    · exact ih ref href

/-- The script is found with all its expressions as its body compiles. -/
structure Engine.Intact {σ : Type} [CodeRepository σ] (e : Engine σ) (name : QualifiedName)
    (body : String) (c : ScriptCompilation) : Prop where
  compiled : (Compile.script name body).run e.types = .ok c
  found : ∀ u ∈ c.units, ∃ loaded, u.load = .ok loaded ∧ e.found u.name = .ok (u.name, loaded)

namespace Catalog

variable {e e' : Engine MemoryRepository} {change : Change} {name body : String}
  {inputs : InputManifest}

/-- Units of scripts leave the stored record types as they are. -/
theorem storedTypes_saved {package : Package} (hscript : package.root = .script)
    {us : List CompiledUnit} (hus : ∀ u ∈ us, u.name.package = package) {before after : Contents}
    (h : Saved us (change.remaining package before) after) :
    storedTypes after = storedTypes before := by
  funext other
  by_cases hkind : other.kind = .recordType
  · have hroot : other.root = .record := by
      unfold QualifiedName.kind at hkind
      cases hd : other.discriminator <;> cases hr : other.root <;> simp [hd, hr] at hkind
      rfl
    have hother : ∀ u ∈ us, u.name ≠ other := by
      rintro u hu rfl
      have hpackage := congrArg Package.root (hus u hu)
      exact nomatch hroot.symm.trans (hpackage.trans hscript)
    have hcovers : package.covers other = false := by
      simp [Package.covers, hroot, hscript]
    have hget : after.get? other = before.get? other := by
      rw [h.others other hother]
      cases change with
      | create => rfl
      | update =>
        rw [Change.remaining, Dictionary.get?_filterKeys, hcovers]
        rfl
    unfold storedTypes storedBody?
    rw [hget]
  · rw [storedTypes_of_kind hkind, storedTypes_of_kind hkind]

/-- Storing a script leaves the stored record types as they are. -/
theorem storedTypes_putScript (h : putScript change name body e = (.ok inputs, e')) :
    storedTypes e'.cache.repository.entries = storedTypes e.cache.repository.entries := by
  obtain ⟨us, hcompile, hsaved⟩ := put_saved h
  obtain ⟨c, hscript, -, rfl⟩ := compileScript_eq_ok hcompile
  exact storedTypes_saved rfl (fun u hu => package_of_mem_units hscript hu) hsaved

theorem coherent_putScript (hco : e.Coherent)
    (h : putScript change name body e = (.ok inputs, e')) : e'.Coherent := by
  have hput : (put change .script name (compileScript body) e).2.Coherent := coherent_put hco
  have hsame : put change .script name (compileScript body) e = (.ok inputs, e') := h
  rwa [hsame] at hput

/-- A script that has been stored is found as its body compiles, when all its units load. -/
theorem intact_putScript (hco : e.Coherent) (h : putScript change name body e = (.ok inputs, e'))
    (hload : ∀ c, (Compile.script (.script name) body).run
        (storedTypes e'.cache.repository.entries) = .ok c →
      ∀ u ∈ c.units, ∃ loaded, u.load = .ok loaded) :
    ∃ c, e'.Intact (.script name) body c ∧ inputs = c.inputs ∧
      ∀ u ∈ c.units, e'.cache.repository.entries.get? u.name = some ⟨u.payload, u.source⟩ := by
  have htypes := storedTypes_putScript h
  obtain ⟨us, hcompile, hsaved⟩ := put_saved h
  obtain ⟨c, hscript, hinputs, rfl⟩ := compileScript_eq_ok hcompile
  rw [hco.types_eq, ← htypes] at hscript
  have hco' := coherent_putScript hco h
  have hfast : e'.fast = ∅ := fast_put h
  refine ⟨c, ⟨?_, fun u hu => ?_⟩, hinputs, hsaved.held⟩
  · rw [hco'.types_eq]
    exact hscript
  · obtain ⟨loaded, hloaded⟩ := hload c hscript u hu
    have hnone : e'.fast.get? u.name = none := by
      rw [hfast]
      rfl
    exact ⟨loaded, hloaded,
      hco'.found_of_stored hnone (hsaved.held u hu) (CompiledUnit.load_eq_ok.mp hloaded)⟩

end Catalog

namespace Engine.Intact

variable {σ : Type} [CodeRepository σ] {e : Engine σ} {types : Registry} {name body : String}
  {c : ScriptCompilation}

theorem filled [SteadyRepository σ] {name : QualifiedName} {e' : Engine σ}
    (h : e.Intact name body c) (k : e.Filled e') : e'.Intact name body c where
  compiled := by rw [k.types, h.compiled]
  found u hu := by
    rw [k.found]
    exact h.found u hu

/-- The program of a script is found. -/
theorem program (h : e.Intact (.script name) body c)
    (p : Compile.Parts types (.script name) body c) :
    e.found (.script name) = .ok (.script name, .script p.checked.program) := by
  obtain ⟨loaded, hscript, hstored⟩ := h.found c.script List.mem_cons_self
  rw [p.script] at hscript hstored
  have hloaded := CompiledUnit.load_ofBody
    (p.script_readable (QualifiedName.readable_script name)) hscript
  rw [hloaded] at hstored
  exact hstored

/-- The trees of its expressions are found. -/
theorem trees (h : e.Intact (.script name) body c)
    (p : Compile.Parts types (.script name) body c) :
    ∀ x ∈ p.checked.expressions, ∃ tree,
      Target.parseTarget x.sentence.targetCode.text.toList = .ok tree ∧
        e.found x.name = .ok (x.name, .expression tree.reread) := by
  intro x hx
  obtain ⟨tree, hparse, hunit⟩ := p.unit_of_mem hx
  obtain ⟨loaded, hxload, hstored⟩ := h.found _ (List.mem_cons_of_mem c.script hunit)
  have hreadable : (UnitBody.expression tree).Readable := Target.parseTarget_primitive hparse
  rw [CompiledUnit.load_ofBody hreadable hxload] at hstored
  exact ⟨tree, hparse, hstored⟩

end Engine.Intact

namespace Catalog

open Engine (standalone)

variable {e e' : Engine MemoryRepository} {change : Change} {name body : String}
  {inputs : InputManifest}

/-- A script that has just been stored runs as it does when its body is compiled by an engine
without a repository that has the stored record types. Its body and its inputs can be asked for. -/
theorem putScript_agrees (hreached : Reached e)
    (hput : putScript change name body e = (.ok inputs, e'))
    {defs : List (QualifiedName × String)}
    (htypes : (standalone.defining defs).types = storedTypes e'.cache.repository.entries)
    (hload : ∀ c, (Compile.script (.script name) body).run
        (storedTypes e'.cache.repository.entries) = .ok c →
      ∀ u ∈ c.units, ∃ loaded, u.load = .ok loaded) (values : List Value) :
    (e'.runScript (.script name) values).1 =
        ((standalone.defining defs).runSource (.script name) body values).1 ∧
      (source .script name e').1 = .ok (some body) ∧ (scriptInputs name e').1 = .ok inputs := by
  have hco := hreached.coherent
  have hco' := coherent_putScript hco hput
  obtain ⟨c, hintact, rfl, hheld⟩ := intact_putScript hco hput hload
  have hcompile := hintact.compiled
  rw [hco'.types_eq] at hcompile
  have hloads := hload c hcompile
  obtain ⟨hbare, hreg⟩ :=
    Engine.registered_defining defs Engine.bare_standalone Engine.registered_standalone
  rw [← htypes] at hcompile
  generalize standalone.defining defs = s at htypes hcompile hbare hreg ⊢
  obtain ⟨p, u, s', hget, hbody, hbare', htypes', hholds⟩ := Engine.getExecutable_script hbare hreg
    (QualifiedName.readable_script name) hcompile hloads
  obtain ⟨v, e₂, hget', hcontent, hfilled⟩ := Engine.getExecutable_found (hintact.program p) none
  have hvbody : v.body = .script p.checked.program := congrArg Prod.snd hcontent
  obtain ⟨⟨declared, hmatches⟩, -, -⟩ := ScriptCheck.check_matches p.check
  refine ⟨?_, ?_, ?_⟩
  · have halike : Engine.Alike [] (p.checked.expressions.map (·.name)) e₂ s' := by
      refine ⟨fun other hother => ?_, ?_⟩
      · obtain ⟨x, hx, rfl⟩ := List.mem_map.mp hother
        obtain ⟨tree, hparse, hxfound⟩ := hintact.trees p x hx
        obtain ⟨tree', r, hparse', hr, hrbody⟩ := hholds x hx
        obtain rfl : tree = tree' := Except.ok.inj (hparse.symm.trans hparse')
        left
        rw [hfilled.found, hxfound, Engine.found_of_fast hr]
        simp only [Except.map, Engine.treeOf, ReadyUnit.content, hrbody, UnitBody.expression?]
      · rw [hfilled.types, hco'.types_eq, htypes', htypes]
    have hrefs : ∀ ref ∈ Instruction.allRefs p.checked.program.statements,
        ref.name ∈ p.checked.expressions.map (·.name) := by
      intro ref href
      obtain ⟨x, hx, rfl⟩ := hmatches.refs ref href
      exact List.mem_map.mpr ⟨x, hx, rfl⟩
    have hfinish : (e₂.finish ⟨p.checked.program.statements, .withInputs values⟩).1 =
        (s'.finish ⟨p.checked.program.statements, .withInputs values⟩).1 :=
      halike.finish_eq hrefs
    simp only [Engine.runScript, Engine.runSource, Engine.execute, hget, hget', hvbody, hbody,
      UnitBody.script?, hfinish]
  · have hstored := hheld c.script List.mem_cons_self
    rw [p.script] at hstored
    rw [source_eq hco']
    exact congrArg Except.ok (congrArg (Option.bind · StoredUnit.source) hstored)
  · have hname : EntryKind.script.unitName name = .script name := rfl
    simp only [scriptInputs, hname, hget', hvbody, UnitBody.script?, p.inputs]

theorem putScript_agrees_assigning :
    ∃ inputs e', putScript .create "Calc" Compile.assigning (.ofRepository MemoryRepository.empty 0) =
        (.ok inputs, e') ∧
      (standalone.defining []).types = storedTypes e'.cache.repository.entries ∧
      (∀ c, (Compile.script (.script "Calc") Compile.assigning).run
          (storedTypes e'.cache.repository.entries) = .ok c →
        ∀ u ∈ c.units, ∃ loaded, u.load = .ok loaded) ∧
      (e'.runScript (.script "Calc") []).1 =
        ((standalone.defining []).runSource (.script "Calc") Compile.assigning []).1 ∧
      (source .script "Calc" e').1 = .ok (some Compile.assigning) ∧
      (scriptInputs "Calc" e').1 = .ok inputs := by
  have hok : (putScript .create "Calc" Compile.assigning
      (.ofRepository MemoryRepository.empty 0)).1.toOption.isSome = true := by decide +kernel
  have hloads : Compile.scriptLoads (standalone.defining []).types (.script "Calc") Compile.assigning =
      true := by decide +kernel
  cases hput : putScript .create "Calc" Compile.assigning (.ofRepository MemoryRepository.empty 0) with
  | mk outcome e' =>
    rw [hput] at hok
    cases outcome with
    | error cause => cases hok
    | ok inputs =>
      have htypes : (standalone.defining []).types = storedTypes e'.cache.repository.entries :=
        (storedTypes_putScript hput).symm
      have hload : ∀ c, (Compile.script (.script "Calc") Compile.assigning).run
            (storedTypes e'.cache.repository.entries) = .ok c →
          ∀ u ∈ c.units, ∃ loaded, u.load = .ok loaded := by
        intro c hcompile
        rw [← htypes] at hcompile
        exact (Compile.scriptLoads_iff hcompile).mp hloads
      exact ⟨inputs, e', rfl, htypes, hload, putScript_agrees (.start 0) hput htypes hload []⟩

end Catalog

end Scriptorium

import Scriptorium.Proofs.Engine.Standalone
import Scriptorium.Proofs.Unit.Compilation

/-!
# Scripts compiled by an engine without a repository

Once a script has been compiled, the fast cache holds its program and, under
the name of each of its expressions, the tree that was compiled for this
expression and no other. A run only reads from then on: evaluations find their
trees, and the answers of the engine no longer change.
-/

namespace Scriptorium.Engine

variable {e : Engine NoRepository}

/-- The fast cache holds the tree of every one of these expressions under its name. -/
def Holds (e : Engine NoRepository) (units : List PendingExpression) : Prop :=
  ∀ x ∈ units, ∃ tree u, Target.parseTarget x.sentence.targetCode.text.toList = .ok tree ∧
    e.fast.get? x.name = some u ∧ u.body = .expression tree.reread

/-- The expression found under its name is evaluated, and the engine stays as it is. -/
theorem evaluate_cached {ref : ExprRef} {u : ReadyUnit} {tree : TargetExpr}
    (h : e.fast.get? ref.name = some u) (hbody : u.body = .expression tree) (t : VariableTable) :
    e.evaluate ref t = ((Evaluate.expr t tree).mapError (.evaluation ref.source), e) := by
  simp only [evaluate, Bare.getExecutable_cached h, hbody]
  rfl

/-- Units other than record types leave the lookups of record types as they are. -/
theorem Grown.types_eq {e' : Engine NoRepository} (h : Grown e e') (k : e.Bare)
    (hnew : ∀ name u, e'.fast.get? name = some u →
      e.fast.get? name = some u ∨ u.body.recordType? = none) :
    e'.types = e.types := by
  funext name
  rw [(h.bare k).types_eq, k.types_eq]
  congr 1
  cases hget : e.fast.get? name with
  | some u => rw [h.kept name u hget]
  | none =>
    cases hget' : e'.fast.get? name with
    | none => rfl
    | some u =>
      rcases hnew name u hget' with hold | hbody
      · rw [hget] at hold
        cases hold
      · exact hbody

/-- The registered names are names of record types, so nothing is held under another one. -/
theorem Registered.get?_eq_none (h : e.Registered) {name : QualifiedName}
    (hkind : name.kind ≠ .recordType) : e.fast.get? name = none := by
  cases hget : e.fast.get? name with
  | none => rfl
  | some u => exact absurd (h name u hget).1 hkind

section Script

variable {name : QualifiedName} {body : String} {c : ScriptCompilation}

theorem expression_load (p : Compile.Parts e.types name body c) {u : CompiledUnit}
    (hu : u ∈ c.expressions) {loaded : UnitBody} (hload : u.load = .ok loaded) :
    u.name.kind = .expression ∧ ∃ x ∈ p.checked.expressions, ∃ tree,
      Target.parseTarget x.sentence.targetCode.text.toList = .ok tree ∧ x.name = u.name ∧
        loaded = .expression tree.reread := by
  obtain ⟨x, hx, tree, hparse, rfl⟩ := p.mem_of_unit hu
  have hreadable : (UnitBody.expression tree).Readable := Target.parseTarget_primitive hparse
  have hloaded := CompiledUnit.load_ofBody hreadable hload
  obtain ⟨hkind, -⟩ := CompiledUnit.kind_of_load hload
  rw [hloaded] at hkind
  exact ⟨hkind.symm, x, hx, tree, hparse, rfl, hloaded⟩

theorem script_load (p : Compile.Parts e.types name body c)
    (hname : ∀ d, (name.expression d).Readable) {loaded : UnitBody}
    (hload : c.script.load = .ok loaded) :
    name.kind = .script ∧ loaded = .script p.checked.program := by
  rw [p.script] at hload
  have hloaded := CompiledUnit.load_ofBody (p.script_readable hname) hload
  obtain ⟨hkind, -⟩ := CompiledUnit.kind_of_load hload
  rw [hloaded] at hkind
  exact ⟨hkind.symm, hloaded⟩

/-- A script that compiles, and all of whose units load, is held with its expressions
afterwards. -/
theorem getExecutable_script (h : e.Bare) (hreg : e.Registered)
    (hname : ∀ d, (name.expression d).Readable)
    (hcompile : (Compile.script name body).run e.types = .ok c)
    (hload : ∀ u ∈ c.units, ∃ loaded, u.load = .ok loaded) :
    ∃ (p : Compile.Parts e.types name body c) (u : ReadyUnit) (e' : Engine NoRepository),
      e.getExecutable name (some (.script body)) = (.ok u, e') ∧
      u.body = .script p.checked.program ∧ e'.Bare ∧ e'.types = e.types ∧
      e'.Holds p.checked.expressions := by
  obtain ⟨p⟩ := Compile.script_eq_ok hcompile
  obtain ⟨loaded, hscript⟩ := hload c.script List.mem_cons_self
  have hexpressions : ∀ u ∈ c.expressions, ∃ loaded, u.load = .ok loaded :=
    fun u hu => hload u (List.mem_cons_of_mem _ hu)
  obtain ⟨hkind, rfl⟩ := script_load p hname hscript
  have hscriptName : c.script.name = name := by rw [p.script]; rfl
  obtain ⟨e₁, hseed, hgrown₁, hfound₁, hheld₁⟩ := seedAll_spec c.expressions hexpressions e
  obtain ⟨u, e₂, hinstall, hgrown₂, hheld₂, hfirst, hfound₂⟩ := install_spec hscript e₁
  have hgrown := hgrown₁.trans hgrown₂
  -- Nothing was held under the names of the script and of its expressions.
  have hnew : ∀ other r, e₁.fast.get? other = some r → other.kind ≠ .recordType →
      ∃ v ∈ c.expressions, v.name = other ∧ v.load = .ok r.body := by
    intro other r hr hother
    rcases hfound₁ other r hr with hold | hnew
    · rw [hreg.get?_eq_none hother] at hold
      cases hold
    · exact hnew
  have hnone : e₁.fast.get? c.script.name = none := by
    rw [hscriptName]
    cases hget : e₁.fast.get? name with
    | none => rfl
    | some r =>
      obtain ⟨v, hv, rfl, hvload⟩ := hnew name r hget (by rw [hkind]; decide)
      rw [(expression_load p hv hvload).1] at hkind
      cases hkind
  refine ⟨p, u, e₂, ?_, hfirst hnone, hgrown.bare h, hgrown.types_eq h ?_, ?_⟩
  · rw [h.getExecutable_missing (hreg.get?_eq_none (by rw [hkind]; decide))]
    simp only [compileMissing, compile, h.inquire, hcompile, hseed, hinstall]
    rfl
  · intro other r hr
    rcases hfound₂ other r hr with hr | ⟨-, hbody⟩
    · rcases hfound₁ other r hr with hr | ⟨v, hv, -, hvload⟩
      · exact .inl hr
      · obtain ⟨-, -, -, tree, -, -, hbody⟩ := expression_load p hv hvload
        exact .inr (by rw [hbody]; rfl)
    · exact .inr (by rw [hbody]; rfl)
  · intro x hx
    obtain ⟨tree, hparse, hunit⟩ := p.unit_of_mem hx
    obtain ⟨r, hr⟩ := hheld₁ _ hunit
    have hr : e₁.fast.get? x.name = some r := hr
    obtain ⟨loaded, hxload⟩ := hexpressions _ hunit
    have hxkind : x.name.kind = .expression := (expression_load p hunit hxload).1
    obtain ⟨v, hv, hvname, hvload⟩ := hnew x.name r hr (by rw [hxkind]; decide)
    obtain ⟨-, y, hy, tree', hparse', hyname, hbody⟩ := expression_load p hv hvload
    -- No two expressions have one name, so what is held is the tree of this one.
    obtain ⟨-, -, hunits⟩ := ScriptCheck.check_matches p.check
    obtain rfl := (hunits x hx).2 y hy (hvname.symm.trans hyname.symm)
    rw [hparse] at hparse'
    cases hparse'
    exact ⟨tree, r, hparse, hgrown₂.kept _ _ hr, hbody⟩

end Script

end Scriptorium.Engine

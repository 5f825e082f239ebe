import Scriptorium.Proofs.Engine.Seeding
import Scriptorium.Proofs.Record.Inquiry
import Scriptorium.Proofs.Unit.Compilation
import Scriptorium.Proofs.Unit.Records

/-!
# Compiling sources

Whatever a source is of, the engine asks for the units to which it compiles,
caches all but one of them, and installs this one. All of them stand under the
name of the source or belong to it.
-/

namespace Scriptorium.Engine

/-- The units to which a source is compiled: those that are cached first, and the one that is
installed. -/
def sourceUnits (name : QualifiedName) :
    Fallback → Inquiry (Except CompileError (List CompiledUnit × CompiledUnit))
  | .expression text t => (Except.map fun u => ([], u)) <$> Compile.expression name text t
  | .record spec => (Except.map fun u => ([], u)) <$> Compile.recordType name spec
  | .script body => (Except.map fun c => (c.expressions, c.script)) <$> Compile.script name body

/-- A unit that a source under this name may be compiled to. -/
def MadeOf (name : QualifiedName) (f : Fallback) (u : CompiledUnit) : Prop :=
  ∃ body source inputs, u = .ofBody u.name body source inputs ∧
    (body.kind = .recordType → ∃ spec, f = .record spec) ∧
    (u.name = name ∨ ∃ text d, f = .script text ∧ u.name = name.expression d)

variable {name : QualifiedName} {f : Fallback} {us : List CompiledUnit} {u : CompiledUnit}

theorem exists_of_map_eq_ok {ε α β : Type} {g : α → β} {x : Except ε α} {b : β}
    (h : x.map g = .ok b) : ∃ a, x = .ok a ∧ g a = b := by
  cases x with
  | error cause => cases h
  | ok a => exact ⟨a, rfl, Except.ok.inj h⟩

theorem madeOf_sourceUnits {types : Registry} (h : (sourceUnits name f).run types = .ok (us, u)) :
    ∀ v ∈ u :: us, MadeOf name f v := by
  cases f with
  | expression text t =>
    obtain ⟨made, hmade, ⟨⟩⟩ := exists_of_map_eq_ok ((Inquiry.run_bind _ _ _).symm.trans h)
    obtain ⟨-, tree, -, -, rfl⟩ := Compile.expression_eq_ok hmade
    refine List.forall_mem_singleton.mpr ?_
    exact ⟨.expression tree, _, _, rfl, nofun, .inl rfl⟩
  | record spec =>
    obtain ⟨made, hmade, ⟨⟩⟩ := exists_of_map_eq_ok ((Inquiry.run_bind _ _ _).symm.trans h)
    obtain ⟨defined, -, rfl⟩ := Compile.recordType_eq_ok hmade
    refine List.forall_mem_singleton.mpr ?_
    exact ⟨.record ⟨name, defined⟩, _, _, rfl, fun _ => ⟨spec, rfl⟩, .inl rfl⟩
  | script text =>
    obtain ⟨made, hmade, ⟨⟩⟩ := exists_of_map_eq_ok ((Inquiry.run_bind _ _ _).symm.trans h)
    obtain ⟨p⟩ := Compile.script_eq_ok hmade
    refine List.forall_mem_cons.mpr ⟨?_, fun v hv => ?_⟩
    · rw [p.script]
      exact ⟨.script _, _, _, rfl, nofun, .inl rfl⟩
    · obtain ⟨x, hx, tree, -, rfl⟩ := p.mem_of_unit hv
      obtain ⟨-, -, hunits⟩ := ScriptCheck.check_matches p.check
      obtain ⟨⟨d, hd⟩, -⟩ := hunits x hx
      exact ⟨.expression tree, _, _, rfl, nofun, .inr ⟨text, d, rfl, hd⟩⟩

variable {σ : Type} [CodeRepository σ]

theorem inquire_map {α β : Type} (g : α → β) (x : Inquiry α) (e : Engine σ) :
    e.inquire (g <$> x) = (g (e.inquire x).1, (e.inquire x).2) := by
  induction x generalizing e with
  | answer a => rfl
  | ask name next ih => exact ih _ _

/-- Whatever is compiled, its units are put in one after the other, up to the first that cannot be
read. -/
theorem compile_eq (e : Engine σ) (name : QualifiedName) (f : Fallback) :
    e.compile name f =
      match e.inquire (sourceUnits name f) with
      | (.error cause, e) => (.error cause, e)
      | (.ok (us, u), e) =>
        match e.seedAll us with
        | (.error cause, e) => (.error cause, e)
        | (.ok (), e) => e.install u := by
  cases f with
  | expression text t =>
    rw [sourceUnits, inquire_map, compile]
    rcases e.inquire (Compile.expression name text t) with ⟨cause | u, e₁⟩ <;> rfl
  | record spec =>
    rw [sourceUnits, inquire_map, compile]
    rcases e.inquire (Compile.recordType name spec) with ⟨cause | u, e₁⟩ <;> rfl
  | script body =>
    rw [sourceUnits, inquire_map, compile]
    rcases e.inquire (Compile.script name body) with ⟨cause | c, e₁⟩ <;> rfl

/-- What putting in any of its units keeps is kept when a source is compiled. -/
theorem compile_keeps {P : Engine σ → Prop} {e : Engine σ}
    (hinquire : P (e.inquire (sourceUnits name f)).2)
    (hseed : ∀ us u, (e.inquire (sourceUnits name f)).1 = .ok (us, u) → ∀ v ∈ u :: us,
      ∀ body, v.load = .ok body → ∀ s n, P s → P { (s.seed v.name body).2 with compilations := n }) :
    P (e.compile name f).2 := by
  rw [compile_eq]
  generalize e.inquire (sourceUnits name f) = asked at hinquire hseed
  obtain ⟨outcome, e₁⟩ := asked
  cases outcome with
  | error cause => exact hinquire
  | ok units =>
    obtain ⟨us, u⟩ := units
    obtain ⟨hlast, hfirst⟩ := List.forall_mem_cons.mp (hseed us u rfl)
    have hseeded : P (e₁.seedAll us).2 := seedAll_keeps
      (fun v hv body hload s hs => hfirst v hv body hload s s.compilations hs) hinquire
    dsimp only
    split
    · next heq => rwa [heq] at hseeded
    · next e₂ heq =>
      rw [heq] at hseeded
      unfold install
      split
      · exact hseeded
      · next body hload => exact hlast body hload e₂ _ hseeded

end Scriptorium.Engine

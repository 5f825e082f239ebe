import Scriptorium.Engine.Basic

/-!
# The fast cache grows

Units are only added to the fast cache, and the first one of a name stays. What
is found there after several units were put in was there before, or is one of
these units as its payload was read.
-/

namespace Scriptorium.Engine

variable {σ : Type} {e : Engine σ}

/-- The engine is another one but for units that have been added to its fast cache. -/
structure Grown (e e' : Engine σ) : Prop where
  current : e'.cache.current = e.cache.current
  repository : e'.cache.repository = e.cache.repository
  kept : ∀ name u, e.fast.get? name = some u → e'.fast.get? name = some u

theorem Grown.refl (e : Engine σ) : Grown e e := ⟨rfl, rfl, fun _ _ h => h⟩

theorem Grown.trans {e e' e'' : Engine σ} (h : Grown e e') (k : Grown e' e'') : Grown e e'' where
  current := k.current.trans h.current
  repository := k.repository.trans h.repository
  kept name u hu := k.kept name u (h.kept name u hu)

theorem fast_seed (e : Engine σ) (name : QualifiedName) (body : UnitBody) :
    (e.seed name body).2.fast = e.fast.insertNew name ⟨name, body, e.cache.made⟩ := rfl

theorem grown_seed (e : Engine σ) (name : QualifiedName) (body : UnitBody) :
    Grown e (e.seed name body).2 where
  current := rfl
  repository := rfl
  kept other u hu := by
    rw [fast_seed]
    by_cases h : other = name
    · subst h
      simp [hu]
    · rwa [Dictionary.get?_insertNew_of_ne _ h]

/-- What is found after a unit was put in was there before, or is the unit. -/
theorem get?_seed {name other : QualifiedName} {body : UnitBody} {u : ReadyUnit}
    (h : (e.seed name body).2.fast.get? other = some u) :
    e.fast.get? other = some u ∨ other = name ∧ u = ⟨name, body, e.cache.made⟩ := by
  rw [fast_seed] at h
  by_cases hname : other = name
  · subst hname
    rw [Dictionary.get?_insertNew_self] at h
    cases hget : e.fast.get? other with
    | some v =>
      rw [hget] at h
      exact .inl h
    | none =>
      rw [hget] at h
      exact .inr ⟨rfl, (Option.some.inj h).symm⟩
  · rw [Dictionary.get?_insertNew_of_ne _ hname] at h
    exact .inl h

theorem contains_seed (e : Engine σ) (name : QualifiedName) (body : UnitBody) :
    ∃ u, (e.seed name body).2.fast.get? name = some u ∧ (e.seed name body).1 = u := by
  rw [fast_seed, Dictionary.get?_insertNew_self]
  refine ⟨_, rfl, ?_⟩
  simp only [seed, GenerationCache.ready]
  rw [Dictionary.get?_insertNew_self]
  rfl

/-- What putting in any one of the units keeps is kept when they are put in one after the other. -/
theorem seedAll_keeps {P : Engine σ → Prop} {us : List CompiledUnit}
    (hseed : ∀ u ∈ us, ∀ body, u.load = .ok body → ∀ e, P e → P (e.seed u.name body).2)
    (h : P e) : P (e.seedAll us).2 := by
  induction us generalizing e with
  | nil => exact h
  | cons u us ih =>
    unfold seedAll
    split
    · exact h
    · next body hload =>
      refine ih (fun v hv => hseed v (List.mem_cons_of_mem _ hv)) ?_
      exact hseed u List.mem_cons_self body hload e h

/-- Units that can all be read are all put in. -/
theorem seedAll_spec (us : List CompiledUnit) (hload : ∀ u ∈ us, ∃ body, u.load = .ok body)
    (e : Engine σ) :
    ∃ e', e.seedAll us = (.ok (), e') ∧ Grown e e' ∧
      (∀ name r, e'.fast.get? name = some r →
        e.fast.get? name = some r ∨ ∃ u ∈ us, u.name = name ∧ u.load = .ok r.body) ∧
      ∀ u ∈ us, ∃ r, e'.fast.get? u.name = some r := by
  induction us generalizing e with
  | nil => exact ⟨e, rfl, .refl e, fun _ _ h => .inl h, nofun⟩
  | cons u us ih =>
    obtain ⟨body, hbody⟩ := hload u List.mem_cons_self
    obtain ⟨e', hseed, hgrown, hnew, hheld⟩ :=
      ih (fun v hv => hload v (List.mem_cons_of_mem _ hv)) (e.seed u.name body).2
    refine ⟨e', ?_, (grown_seed e u.name body).trans hgrown, ?_, ?_⟩
    · simp only [seedAll, hbody]
      exact hseed
    · intro name r hr
      rcases hnew name r hr with h | ⟨v, hv, hname, hvload⟩
      · rcases get?_seed h with h | ⟨rfl, rfl⟩
        · exact .inl h
        · exact .inr ⟨u, List.mem_cons_self, rfl, hbody⟩
      · exact .inr ⟨v, List.mem_cons_of_mem _ hv, hname, hvload⟩
    · intro v hv
      rcases List.mem_cons.mp hv with rfl | hv
      · obtain ⟨r, hr, -⟩ := contains_seed e v.name body
        exact ⟨r, hgrown.kept _ _ hr⟩
      · exact hheld v hv

/-- A unit that can be read is installed. -/
theorem install_spec {u : CompiledUnit} {body : UnitBody} (hload : u.load = .ok body)
    (e : Engine σ) :
    ∃ r e', e.install u = (.ok r, e') ∧ Grown e e' ∧ e'.fast.get? u.name = some r ∧
      (e.fast.get? u.name = none → r.body = body) ∧
      ∀ name r', e'.fast.get? name = some r' →
        e.fast.get? name = some r' ∨ name = u.name ∧ r'.body = body := by
  obtain ⟨r, hr, hfirst⟩ := contains_seed e u.name body
  refine ⟨r, { (e.seed u.name body).2 with compilations := e.compilations + 1 }, ?_,
    ⟨rfl, rfl, (grown_seed e u.name body).kept⟩, hr, ?_, ?_⟩
  · simp only [install, hload, ← hfirst]
    rfl
  · intro hnone
    rcases get?_seed hr with h | ⟨-, rfl⟩
    · rw [hnone] at h
      cases h
    · rfl
  · intro name r' hr'
    rcases get?_seed hr' with h | ⟨rfl, rfl⟩
    · exact .inl h
    · exact .inr ⟨rfl, rfl⟩

end Scriptorium.Engine

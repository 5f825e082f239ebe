import Scriptorium.Proofs.Engine.Callers
import Scriptorium.Proofs.Engine.Missing

/-!
# Concurrent callers compile once

Several callers ask for a unit that is neither cached nor stored. The first of
them to hold the lock finds the unit missing and compiles it; whoever comes
later finds the unit that the first one has compiled.
-/

namespace Scriptorium

/-- The caller does not compile, and knows no answer but this unit. -/
def CallerState.Follows (u : ReadyUnit) (s : CallerState) : Prop :=
  s.isCompiling = false ∧ ∀ answer, s.known? = some answer → answer = .ok u

namespace Crowd

variable {σ : Type} {c c' c₁ : Crowd σ} {i : Nat} {s s' : CallerState}

/-- Either nothing has been compiled and nobody knows an answer, or one unit has been compiled and
everybody who knows an answer knows that one. -/
inductive Phase (e : Engine σ) (states : σ → Prop) (c : Crowd σ) : Prop
  | before {r : σ} (hr : states r) (hengine : c.engine = e.withRepository r)
    (hknown : ∀ (i : Nat) (s : CallerState), c.callers[i]? = some s → s.known? = none)
  | after {u : ReadyUnit} (hfast : c.engine.fast.get? c.name = some u)
    (hcount : c.engine.compilations = e.compilations + 1) (hlacks : c.engine.cache.Lacks c.name states)
    (hcallers : ∀ (i : Nat) (s : CallerState), c.callers[i]? = some s → s.Follows u)

/-- The callers compete for one missing unit. -/
structure Contest (e : Engine σ) (name : QualifiedName) (fallback : Nat → Fallback) (n : Nat)
    (states : σ → Prop) (c : Crowd σ) : Prop where
  name : c.name = name
  fallback : c.fallback = fun i => some (fallback i)
  callers : c.callers.length = n
  locked : c.Locked
  phase : Phase e states c

variable {e : Engine σ} {name : QualifiedName} {fallback : Nat → Fallback} {n : Nat}
  {states : σ → Prop}

namespace Phase

theorem before_move {r : σ} (hr : states r) (hengine : c₁.engine = e.withRepository r)
    (hcallers : c₁.callers = c.callers)
    (hknown : ∀ (i : Nat) (s : CallerState), c.callers[i]? = some s → s.known? = none)
    (hself : s'.known? = none) : Phase e states (c₁.move i s') := by
  refine .before hr hengine fun j t ht => ?_
  rcases getElem?_move ht with ⟨-, rfl⟩ | ⟨-, ht⟩
  · exact hself
  · exact hknown j t (hcallers ▸ ht)

theorem after_move {u : ReadyUnit} (hfast : c₁.engine.fast.get? c₁.name = some u)
    (hcount : c₁.engine.compilations = e.compilations + 1)
    (hlacks : c₁.engine.cache.Lacks c₁.name states)
    (hself : s'.Follows u)
    (hothers : ∀ (j : Nat) (t : CallerState), j ≠ i → c₁.callers[j]? = some t → t.Follows u) :
    Phase e states (c₁.move i s') := by
  refine .after hfast hcount hlacks fun j t ht => ?_
  rcases getElem?_move ht with ⟨-, rfl⟩ | ⟨hj, ht⟩
  · exact hself
  · exact hothers j t hj ht

end Phase

theorem Contest.edit (h : Contest e name fallback n states c) {r : σ} (hr : states r) :
    Contest e name fallback n states { c with engine := c.engine.withRepository r } where
  name := h.name
  fallback := h.fallback
  callers := h.callers
  locked := ⟨h.locked.claims, h.locked.alone⟩
  phase := by
    cases h.phase with
    | before _ hengine hknown => exact .before hr (by rw [hengine]; rfl) hknown
    | after hfast hcount hlacks hcallers => exact .after hfast hcount ⟨hlacks.1, hr⟩ hcallers

theorem Contest.compilations (h : Contest e name fallback n states c) :
    c.engine.compilations ≤ e.compilations + 1 := by
  cases h.phase with
  | before _ hengine =>
    rw [hengine]
    exact Nat.le_succ _
  | after _ hcount => exact Nat.le_of_eq hcount

theorem Contest.answered (h : Contest e name fallback n states c) {answer : Answer}
    (hi : c.callers[i]? = some (.done answer)) :
    c.engine.compilations = e.compilations + 1 ∧
      ∃ u, c.engine.fast.get? name = some u ∧ answer = .ok u := by
  obtain rfl := h.name
  cases h.phase with
  | before _ _ hknown => cases hknown i _ hi
  | @after u hfast hcount _ hcallers => exact ⟨hcount, u, hfast, (hcallers i _ hi).2 answer rfl⟩

variable [CodeRepository σ]

/-- The unit is neither cached nor stored, and what each of the callers brings compiles. -/
structure Missing (e : Engine σ) (name : QualifiedName) (fallback : Nat → Fallback) (n : Nat)
    (states : σ → Prop) : Prop where
  unstored : Unstored name states
  uncached : e.fast.get? name = none
  lacks : e.cache.Lacks name states
  compiles : ∀ i < n, ∀ r, states r →
    ∃ u, ((e.withRepository r).compile name (fallback i)).1 = .ok u

namespace Contest

theorem gather (h : Missing e name fallback n states) :
    Contest e name fallback n states (Crowd.gather e name (fun i => some (fallback i)) n) where
  name := rfl
  fallback := rfl
  callers := List.length_replicate
  locked := .gather _ _ _ _
  phase := by
    refine .before h.lacks.2 rfl fun i s hs => ?_
    rw [List.eq_of_mem_replicate (List.mem_of_getElem? hs)]
    rfl

/-- Before the unit has been compiled, a step of a caller compiles it or leaves it missing. -/
theorem phase_before (h : Contest e name fallback n states c)
    (hmissing : Missing e name fallback n states) {r : σ} (hr : states r)
    (hengine : c.engine = e.withRepository r)
    (hknown : ∀ (i : Nat) (s : CallerState), c.callers[i]? = some s → s.known? = none)
    (hi : c.callers[i]? = some s) (hadvance : Advance c i s s' c₁) :
    Phase e states (c₁.move i s') := by
  obtain rfl := h.name
  have hfast : c.engine.fast.get? c.name = none := by
    rw [hengine]
    exact hmissing.uncached
  have hlacks : c.engine.cache.Lacks c.name states := by
    rw [hengine]
    exact ⟨hmissing.lacks.1, hr⟩
  obtain ⟨r', hr', hresolve⟩ := Engine.resolveStored_missing hmissing.unstored hlacks
  have hself := hknown i s hi
  cases hadvance with
  | cached hcached | found hcached => simp [hfast] at hcached
  | stored hstored => simp [hresolve] at hstored
  | failed answer hfailed hcause =>
    rw [hresolve] at hfailed
    cases hfailed
    have := hcause _ rfl
    simp [h.fallback] at this
  | unstored hunstored =>
    rw [hresolve] at hunstored
    cases hunstored
    exact Phase.before_move hr' (by rw [hengine]; rfl) rfl hknown rfl
  | uncached | share | create | enter | missing => exact Phase.before_move hr hengine rfl hknown rfl
  | leave | release | part => simp [CallerState.known?] at hself
  | @compiled lock answer engine hcompile =>
    have hlt : i < n := h.callers ▸ (List.getElem?_eq_some_iff.mp hi).1
    obtain ⟨u, hu⟩ := hmissing.compiles i hlt r hr
    rw [← hengine] at hu
    simp only [Engine.compileMissing, h.fallback, hu, Prod.mk.injEq] at hcompile
    obtain ⟨rfl, rfl⟩ := hcompile
    obtain ⟨hheld, hcount⟩ := Engine.compile_ok (Prod.ext hu rfl)
    refine Phase.after_move hheld (by rw [hcount, hengine]; rfl)
      (Engine.lacks_compile hmissing.unstored hlacks _) ⟨rfl, ?_⟩ fun j t hj ht => ⟨?_, ?_⟩
    · rintro answer ⟨⟩
      rfl
    · -- The caller that has compiled was alone in holding a lock.
      by_contra hcompiling
      refine hj (h.locked.alone ht hi ?_ rfl)
      cases t <;> simp_all [CallerState.isCompiling, CallerState.held?]
    · simp [hknown j t ht]

/-- After the unit has been compiled, whoever comes to know an answer has found that unit. -/
theorem phase_after (h : Contest e name fallback n states c)
    (hmissing : Missing e name fallback n states) {u : ReadyUnit}
    (hfast : c.engine.fast.get? c.name = some u)
    (hcount : c.engine.compilations = e.compilations + 1)
    (hlacks : c.engine.cache.Lacks c.name states)
    (hcallers : ∀ (i : Nat) (s : CallerState), c.callers[i]? = some s → s.Follows u)
    (hi : c.callers[i]? = some s) (hadvance : Advance c i s s' c₁) :
    Phase e states (c₁.move i s') := by
  obtain rfl := h.name
  obtain ⟨r, hr, hresolve⟩ := Engine.resolveStored_missing hmissing.unstored hlacks
  obtain ⟨hcompiling, hself⟩ := hcallers i s hi
  have hothers (j : Nat) (t : CallerState) (_ : j ≠ i) := hcallers j t
  cases hadvance with
  | uncached hnone | missing hnone => simp [hfast] at hnone
  | stored hstored => simp [hresolve] at hstored
  | failed answer hfailed hcause =>
    rw [hresolve] at hfailed
    cases hfailed
    have := hcause _ rfl
    simp [h.fallback] at this
  | compiled => simp [CallerState.isCompiling] at hcompiling
  | unstored hunstored =>
    rw [hresolve] at hunstored
    cases hunstored
    exact Phase.after_move hfast hcount ⟨hlacks.1, hr⟩ ⟨rfl, nofun⟩ hothers
  | share | create | enter =>
    exact Phase.after_move hfast hcount hlacks ⟨rfl, nofun⟩ hothers
  | cached hcached | found hcached =>
    refine Phase.after_move hfast hcount hlacks ⟨rfl, ?_⟩ hothers
    rintro answer ⟨⟩
    rw [hfast] at hcached
    rw [Option.some.inj hcached]
  | leave | release | part =>
    exact Phase.after_move hfast hcount hlacks ⟨rfl, hself⟩ hothers

theorem step (h : Contest e name fallback n states c) (hmissing : Missing e name fallback n states)
    (hstep : c.step? i = some c') : Contest e name fallback n states c' := by
  obtain ⟨s, s', c₁, hi, hadvance, rfl⟩ := step?_advance hstep
  obtain ⟨hname, hfallback⟩ := hadvance.name
  exact {
    name := hname.trans h.name
    fallback := hfallback.trans h.fallback
    callers := by
      rw [move, List.length_set, hadvance.callers]
      exact h.callers
    locked := h.locked.advance hi hadvance
    phase := by
      cases h.phase with
      | before hr hengine hknown => exact h.phase_before hmissing hr hengine hknown hi hadvance
      | after hfast hcount hlacks hcallers =>
        exact h.phase_after hmissing hfast hcount hlacks hcallers hi hadvance }

theorem race (hmissing : Missing e name fallback n states) {k : Nat}
    (hrace : Race states (Crowd.gather e name (fun i => some (fallback i)) n) k c) :
    Contest e name fallback n states c := by
  induction hrace with
  | refl => exact .gather hmissing
  | edit _ hr ih => exact ih.edit hr
  | step _ hstep ih => exact ih.step hmissing hstep

theorem settled (h : Contest e name fallback n states c) (hn : 0 < n)
    (hstuck : ∀ i, c.step? i = none) :
    c.engine.compilations = e.compilations + 1 ∧
      ∃ u, c.callers = List.replicate n (.done (.ok u)) := by
  have hlt : 0 < c.callers.length := h.callers ▸ hn
  have hfirst : c.callers[0]? = some c.callers[0] := List.getElem?_eq_getElem hlt
  obtain ⟨answer, hdone⟩ := done_of_stuck hstuck hfirst
  rw [hdone] at hfirst
  obtain ⟨hcount, u, hfast, -⟩ := h.answered hfirst
  refine ⟨hcount, u, List.eq_replicate_iff.mpr ⟨h.callers, fun s hs => ?_⟩⟩
  obtain ⟨i, hi⟩ := List.getElem?_of_mem hs
  obtain ⟨answer', rfl⟩ := done_of_stuck hstuck hi
  obtain ⟨-, v, hfast', rfl⟩ := h.answered hi
  rw [hfast] at hfast'
  rw [Option.some.inj hfast']

end Contest

/-- However the callers' steps follow upon each other, no two callers compile at a time, no more than
one compilation is counted, and whoever has been given an answer has been given the unit that was
compiled. The callers come to an end, since there are only so many steps and they never all wait;
in the end one compilation has been counted, and every caller has been given the same unit. -/
theorem compiled_once (hmissing : Missing e name fallback n states) {k : Nat}
    (hrace : Race states (Crowd.gather e name (fun i => some (fallback i)) n) k c) :
    (∀ (i j lock lock' : Nat), c.callers[i]? = some (.compiling lock) →
      c.callers[j]? = some (.compiling lock') → i = j) ∧
    c.engine.compilations ≤ e.compilations + 1 ∧
    (∀ (i : Nat) (answer : Answer), c.callers[i]? = some (.done answer) →
      c.engine.compilations = e.compilations + 1 ∧
        ∃ u, c.engine.fast.get? name = some u ∧ answer = .ok u) ∧
    k ≤ longestCourse * n ∧
    (0 < n → (∀ i, c.step? i = none) → c.engine.compilations = e.compilations + 1 ∧
      ∃ u, c.callers = List.replicate n (.done (.ok u))) := by
  have hcontest := Contest.race hmissing hrace
  refine ⟨fun i j lock lock' hi hj => hcontest.locked.alone hi hj rfl rfl, hcontest.compilations,
    fun i answer => hcontest.answered, ?_, hcontest.settled⟩
  have hmost := (Crowd.gather e name (fun i => some (fallback i)) n).remaining_le
  have hlength : (Crowd.gather e name (fun i => some (fallback i)) n).callers.length = n :=
    List.length_replicate
  rw [hlength] at hmost
  have hleft := hrace.remaining
  omega

/-- What the callers bring: the number of each, counted from one. -/
def numbers (i : Nat) : Fallback := .expression (toString (i + 1)) .empty

/-- Three callers who take turns are given the same expression, though each has brought another. -/
theorem compiled_once_three :
    ∃ u : ReadyUnit,
      (Crowd.gather Engine.standalone ((QualifiedName.script "Calc").expression "$1")
        (fun i => some (numbers i)) 3).settle.callers = List.replicate 3 (.done (.ok u)) ∧
      (Crowd.gather Engine.standalone ((QualifiedName.script "Calc").expression "$1")
        (fun i => some (numbers i)) 3).settle.engine.compilations = 1 := by
  have hcompiles : ∀ i < 3, ((Expression.sentence .empty (toString (i + 1))).run
      Engine.standalone.types).toOption.any (fun s =>
        (Target.parseTarget s.targetCode.text.toList).toOption.any fun tree =>
          (UnitBody.expression tree).loads ((QualifiedName.script "Calc").expression "$1")) = true := by
    decide +kernel
  have hmissing : Missing Engine.standalone ((QualifiedName.script "Calc").expression "$1") numbers 3
      fun _ => True := by
    refine ⟨⟨fun _ _ _ => trivial, fun _ _ => rfl⟩, rfl, ⟨rfl, trivial⟩, fun i hi r _ => ?_⟩
    exact Engine.compile_expression_of_loads Engine.bare_standalone (by decide) (hcompiles i hi)
  obtain ⟨⟨k, hrace⟩, hstuck⟩ := race_settle (Crowd.gather Engine.standalone
    ((QualifiedName.script "Calc").expression "$1") (fun i => some (numbers i)) 3) fun _ => True
  obtain ⟨-, -, -, -, hsettled⟩ := compiled_once hmissing hrace
  obtain ⟨hcount, u, hcallers⟩ := hsettled (by decide) hstuck
  exact ⟨u, hcallers, hcount⟩

end Crowd

end Scriptorium

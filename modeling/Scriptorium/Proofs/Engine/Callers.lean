import Scriptorium.Engine.Callers
import Scriptorium.Proofs.Engine.Missing

/-!
# Steps of concurrent callers

However the steps of the callers follow upon each other, a caller that refers to
a lock and has not seen to the table refers to the lock in the table. So all of
them wait for one lock, and the one that holds it is alone. Every step brings a
caller nearer to its answer, and as long as some have none, one of them can take
a step.
-/

namespace Scriptorium

namespace CallerState

/-- The lock that the caller refers to, until it has seen to the table. -/
def claimed? : CallerState → Option Nat
  | .parting _ _ => none
  | s => s.lock?

/-- The answer that the caller has come by. -/
def known? : CallerState → Option Answer
  | .leaving _ answer | .released _ answer | .parting _ answer | .done answer => some answer
  | _ => none

def isCompiling : CallerState → Bool
  | .compiling _ => true
  | _ => false

/-- The most steps that are left for the caller. -/
def remaining : CallerState → Nat
  | .arrived => 9
  | .missed => 8
  | .unstored => 7
  | .queued _ => 6
  | .entered _ => 5
  | .compiling _ => 4
  | .leaving _ _ => 3
  | .released _ _ => 2
  | .parting _ _ => 1
  | .done _ => 0

/-- The most steps that are left for these callers together. -/
def allRemaining : List CallerState → Nat
  | [] => 0
  | s :: rest => s.remaining + allRemaining rest

theorem allRemaining_set {l : List CallerState} {i : Nat} {s s' : CallerState} (h : l[i]? = some s)
    (hlt : s'.remaining < s.remaining) : allRemaining (l.set i s') < allRemaining l := by
  induction l generalizing i with
  | nil => cases h
  | cons t l ih =>
    cases i with
    | zero =>
      obtain rfl : t = s := Option.some.inj h
      exact Nat.add_lt_add_right hlt _
    | succ i => exact Nat.add_lt_add_left (ih h) _

theorem claimed_of_held {s : CallerState} {lock : Nat} (h : s.held? = some lock) :
    s.claimed? = some lock := by
  cases s <;> simp_all [held?, claimed?, lock?]

theorem lock_of_claimed {s : CallerState} {lock : Nat} (h : s.claimed? = some lock) :
    s.lock? = some lock := by
  cases s <;> simp_all [claimed?, lock?]

end CallerState

namespace Crowd

variable {σ : Type} {c c' c₁ : Crowd σ} {i : Nat} {s s' : CallerState}

theorem getElem?_move {j : Nat} {t : CallerState} (h : (c.move i s').callers[j]? = some t) :
    j = i ∧ t = s' ∨ j ≠ i ∧ c.callers[j]? = some t := by
  unfold move at h
  rw [List.getElem?_set] at h
  grind

/-- Callers that have a claim to a lock have it to the one in the table, and no two hold one. -/
structure Locked (c : Crowd σ) : Prop where
  claims {i : Nat} {s : CallerState} {lock : Nat} :
    c.callers[i]? = some s → s.claimed? = some lock → c.table = some lock
  alone {i j : Nat} {s t : CallerState} : c.callers[i]? = some s → c.callers[j]? = some t →
    s.held?.isSome → t.held?.isSome → i = j

/-- A lock that the table and two callers refer to has three references. -/
theorem references_of_two {lock j : Nat} {t : CallerState} (hij : j ≠ i)
    (hi : c.callers[i]? = some s) (hj : c.callers[j]? = some t) (hs : s.lock? = some lock)
    (ht : t.lock? = some lock) (htable : c.table = some lock) : 2 < c.references lock := by
  obtain ⟨hlt, hget⟩ := List.getElem?_eq_some_iff.mp hi
  have hother : (c.callers.set i .arrived)[j]? = some t := by
    rw [List.getElem?_set_ne (Ne.symm hij), hj]
  have hone : 0 < (c.callers.set i .arrived).countP (·.lock? = some lock) :=
    List.countP_pos_iff.mpr ⟨t, List.mem_of_getElem? hother, by simp [ht]⟩
  have hnone : CallerState.arrived.lock? = none := rfl
  simp only [List.countP_set hlt, hget, hs, hnone, decide_true, if_true] at hone
  unfold references
  rw [if_pos htable]
  simp only [reduceCtorEq, decide_false, Bool.false_eq_true, if_false] at hone
  omega

namespace Locked

theorem gather (e : Engine σ) (name : QualifiedName) (fallback : Nat → Option Fallback) (n : Nat) :
    (Crowd.gather e name fallback n).Locked := by
  have harrived {i : Nat} {s : CallerState}
      (h : (Crowd.gather e name fallback n).callers[i]? = some s) : s = .arrived :=
    List.eq_of_mem_replicate (List.mem_of_getElem? h)
  constructor
  · intro i s lock hs hclaim
    obtain rfl := harrived hs
    cases hclaim
  · intro i j s t hs _ hheld
    obtain rfl := harrived hs
    cases hheld

/-- A caller comes to another state, and the table may change for the others. -/
theorem move (h : c.Locked) (hcallers : c₁.callers = c.callers)
    (hself : ∀ lock, s'.claimed? = some lock → c₁.table = some lock)
    (hothers : ∀ j t lock, j ≠ i → c.callers[j]? = some t → t.claimed? = some lock →
      c₁.table = some lock)
    (hheld : s'.held?.isSome → ∀ j t, j ≠ i → c.callers[j]? = some t → t.held? = none) :
    (c₁.move i s').Locked := by
  constructor
  · intro j t lock ht hclaim
    rcases getElem?_move ht with ⟨rfl, rfl⟩ | ⟨hj, ht⟩
    · exact hself lock hclaim
    · exact hothers j t lock hj (hcallers ▸ ht) hclaim
  · intro j k t u ht hu hheldt hheldu
    rcases getElem?_move ht with ⟨rfl, rfl⟩ | ⟨hj, ht⟩ <;>
      rcases getElem?_move hu with ⟨rfl, rfl⟩ | ⟨hk, hu⟩ <;>
      grind [h.alone]

/-- A caller comes to a state in which it refers to the lock that it referred to or to none. -/
theorem stay (h : c.Locked) (hi : c.callers[i]? = some s) (hcallers : c₁.callers = c.callers)
    (htable : c₁.table = c.table) (hclaimed : ∀ lock, s'.claimed? = some lock → s.claimed? = some lock)
    (hheld : s'.held?.isSome → s.held?.isSome) : (c₁.move i s').Locked := by
  apply h.move hcallers
  · exact fun lock hlock => htable.trans (h.claims hi (hclaimed lock hlock))
  · exact fun j t lock _ ht hlock => htable.trans (h.claims ht hlock)
  · intro hsome j t hj ht
    by_contra hheldt
    exact hj (h.alone ht hi (Option.isSome_iff_ne_none.mpr hheldt) (hheld hsome))

end Locked

/-- The most steps that are left for all callers together. -/
def remaining (c : Crowd σ) : Nat := CallerState.allRemaining c.callers

theorem remaining_le (c : Crowd σ) : c.remaining ≤ longestCourse * c.callers.length := by
  unfold remaining longestCourse
  induction c.callers with
  | nil => exact Nat.zero_le _
  | cons s l ih =>
    have hs : s.remaining ≤ 9 := by cases s <;> simp [CallerState.remaining]
    rw [CallerState.allRemaining, List.length_cons]
    omega

variable [CodeRepository σ]

/-- What one step of a caller does, apart from the caller coming from the one state to the other. -/
inductive Advance (c : Crowd σ) (i : Nat) : CallerState → CallerState → Crowd σ → Prop
  | cached {u : ReadyUnit} (h : c.engine.fast.get? c.name = some u) :
    Advance c i .arrived (.done (.ok u)) c
  | uncached (h : c.engine.fast.get? c.name = none) : Advance c i .arrived .missed c
  | stored {u : ReadyUnit} {engine : Engine σ} (h : c.engine.resolveStored c.name = (.ok u, engine)) :
    Advance c i .missed (.done (.ok u)) { c with engine }
  | unstored {name : QualifiedName} {engine : Engine σ} {fallback : Fallback}
    (h : c.engine.resolveStored c.name = (.error (.notFound name), engine))
    (hfallback : c.fallback i = some fallback) : Advance c i .missed .unstored { c with engine }
  | failed {cause : ResolveError} {engine : Engine σ} (answer : ExecutionError)
    (h : c.engine.resolveStored c.name = (.error cause, engine))
    (hcause : ∀ name, cause = .notFound name → c.fallback i = none) :
    Advance c i .missed (.done (.error answer)) { c with engine }
  | share {lock : Nat} (h : c.table = some lock) : Advance c i .unstored (.queued lock) c
  | create (h : c.table = none) : Advance c i .unstored (.queued c.locks)
      { c with table := some c.locks, locks := c.locks + 1 }
  | enter {lock : Nat} (h : c.isHeld lock = false) : Advance c i (.queued lock) (.entered lock) c
  | found {lock : Nat} {u : ReadyUnit} (h : c.engine.fast.get? c.name = some u) :
    Advance c i (.entered lock) (.leaving lock (.ok u)) c
  | missing {lock : Nat} (h : c.engine.fast.get? c.name = none) :
    Advance c i (.entered lock) (.compiling lock) c
  | compiled {lock : Nat} {answer : Answer} {engine : Engine σ}
    (h : c.engine.compileMissing c.name (c.fallback i) = (answer, engine)) :
    Advance c i (.compiling lock) (.leaving lock answer) { c with engine }
  | leave {lock : Nat} {answer : Answer} :
    Advance c i (.leaving lock answer) (.released lock answer) c
  | release {lock : Nat} {answer : Answer} :
    Advance c i (.released lock answer) (.parting lock answer)
      { c with table := if c.references lock = 2 then none else c.table }
  | part {lock : Nat} {answer : Answer} : Advance c i (.parting lock answer) (.done answer) c

theorem lookUp_advance (c : Crowd σ) (i : Nat) :
    ∃ s' c', Advance c i .missed s' c' ∧ c.lookUp i = c'.move i s' := by
  unfold lookUp
  rcases hresolve : c.engine.resolveStored c.name with ⟨cause | u, engine⟩
  · cases cause with
    | notFound name =>
      cases hfallback : c.fallback i with
      | none =>
        refine ⟨_, _, .failed (.notFound c.name) hresolve fun _ _ => hfallback, ?_⟩
        simp only [hfallback]
      | some fallback =>
        refine ⟨_, _, .unstored hresolve hfallback, ?_⟩
        simp only [hfallback]
    | _ => exact ⟨_, _, .failed (.resolve _) hresolve nofun, rfl⟩
  · exact ⟨_, _, .stored hresolve, rfl⟩

/-- Every step is one of those. -/
theorem step?_advance (h : c.step? i = some c') :
    ∃ s s' c₁, c.callers[i]? = some s ∧ Advance c i s s' c₁ ∧ c' = c₁.move i s' := by
  unfold step? at h
  cases hs : c.callers[i]? with
  | none => simp [hs] at h
  | some s =>
    rw [hs] at h
    refine ⟨s, ?_⟩
    cases s with
    | arrived =>
      dsimp only at h
      split at h
      · next hfast => exact ⟨_, _, rfl, .cached hfast, (Option.some.inj h).symm⟩
      · next hfast => exact ⟨_, _, rfl, .uncached hfast, (Option.some.inj h).symm⟩
    | missed =>
      obtain ⟨s', c₁, hadvance, hmove⟩ := c.lookUp_advance i
      exact ⟨s', c₁, rfl, hadvance, (Option.some.inj h).symm.trans hmove⟩
    | unstored =>
      obtain rfl := Option.some.inj h
      unfold takeLock
      split
      · next htable => exact ⟨_, _, rfl, .share htable, rfl⟩
      · next htable => exact ⟨_, _, rfl, .create htable, rfl⟩
    | queued lock =>
      dsimp only at h
      split at h
      · cases h
      · next hfree =>
        exact ⟨_, _, rfl, .enter (Bool.eq_false_iff.mpr hfree), (Option.some.inj h).symm⟩
    | entered lock =>
      dsimp only at h
      split at h
      · next hfast => exact ⟨_, _, rfl, .found hfast, (Option.some.inj h).symm⟩
      · next hfast => exact ⟨_, _, rfl, .missing hfast, (Option.some.inj h).symm⟩
    | compiling lock => exact ⟨_, _, rfl, .compiled rfl, (Option.some.inj h).symm⟩
    | leaving lock answer => exact ⟨_, _, rfl, .leave, (Option.some.inj h).symm⟩
    | released lock answer => exact ⟨_, _, rfl, .release, (Option.some.inj h).symm⟩
    | parting lock answer => exact ⟨_, _, rfl, .part, (Option.some.inj h).symm⟩
    | done answer => cases h

namespace Advance

theorem callers (h : Advance c i s s' c₁) : c₁.callers = c.callers := by
  cases h <;> rfl

theorem name (h : Advance c i s s' c₁) : c₁.name = c.name ∧ c₁.fallback = c.fallback := by
  cases h <;> exact ⟨rfl, rfl⟩

theorem remaining (h : Advance c i s s' c₁) : s'.remaining < s.remaining := by
  cases h <;> simp [CallerState.remaining]

end Advance

/-- Whoever takes a step, claims are to the lock in the table and no two callers hold one. -/
theorem Locked.advance (h : c.Locked) (hi : c.callers[i]? = some s) (hadvance : Advance c i s s' c₁) :
    (c₁.move i s').Locked := by
  cases hadvance with
  | cached | uncached | stored | unstored | failed => exact h.stay hi rfl rfl nofun nofun
  | found | missing | compiled => exact h.stay hi rfl rfl (fun _ hlock => hlock) fun _ => rfl
  | leave => exact h.stay hi rfl rfl (fun _ hlock => hlock) nofun
  | part => exact h.stay hi rfl rfl nofun nofun
  | share htable =>
    refine h.move rfl (fun lock hlock => ?_) (fun j t lock _ ht hlock => h.claims ht hlock) nofun
    exact htable.trans hlock
  | create htable =>
    refine h.move rfl (fun lock hlock => hlock) (fun j t lock _ ht hlock => ?_) nofun
    exact absurd (h.claims ht hlock) (by simp [htable])
  | @enter lock hfree =>
    have htable : c.table = some lock := h.claims hi rfl
    refine h.move rfl (fun lock hlock => htable.trans hlock)
      (fun j t lock _ ht hlock => h.claims ht hlock) fun _ j t _ ht => ?_
    -- Whoever held a lock would hold the one in the table, which is free.
    cases hheld : t.held? with
    | none => rfl
    | some held =>
      have hheldtable := h.claims ht (CallerState.claimed_of_held hheld)
      obtain rfl : lock = held := Option.some.inj (htable.symm.trans hheldtable)
      have hnot := List.any_eq_false.mp hfree t (List.mem_of_getElem? ht)
      simp [hheld] at hnot
  | @release lock answer =>
    have htable : c.table = some lock := h.claims hi rfl
    refine h.move rfl nofun (fun j t claimed hj ht hclaimed => ?_) nofun
    have hsame : c.table = some claimed := h.claims ht hclaimed
    obtain rfl : lock = claimed := Option.some.inj (htable.symm.trans hsame)
    have hreferences : 2 < c.references lock :=
      references_of_two hj hi ht rfl (CallerState.lock_of_claimed hclaimed) htable
    exact (if_neg (Nat.ne_of_gt hreferences)).trans htable

/-- Callers take steps, so many in all, and between two steps the repository may come to be in any
of these states. -/
inductive Race (states : σ → Prop) (c : Crowd σ) : Nat → Crowd σ → Prop
  | refl : Race states c 0 c
  | edit {k : Nat} {c' : Crowd σ} {r : σ} (hrace : Race states c k c') (hr : states r) :
    Race states c k { c' with engine := c'.engine.withRepository r }
  | step {k i : Nat} {c' c'' : Crowd σ} (hrace : Race states c k c') (hstep : c'.step? i = some c'') :
    Race states c (k + 1) c''

theorem step?_of_ready (hi : c.callers[i]? = some s) (hdone : ∀ answer, s ≠ .done answer)
    (hfree : ∀ lock, s = .queued lock → c.isHeld lock = false) : ∃ c', c.step? i = some c' := by
  unfold step?
  rw [hi]
  cases s with
  | arrived =>
    dsimp only
    split <;> exact ⟨_, rfl⟩
  | entered lock =>
    dsimp only
    split <;> exact ⟨_, rfl⟩
  | queued lock =>
    dsimp only
    rw [hfree lock rfl]
    exact ⟨_, rfl⟩
  | done answer => exact absurd rfl (hdone answer)
  | _ => exact ⟨_, rfl⟩

/-- Callers that are not done do not all wait for each other. -/
theorem done_of_stuck (hstuck : ∀ i, c.step? i = none) (hi : c.callers[i]? = some s) :
    ∃ answer, s = .done answer := by
  by_contra hdone
  push Not at hdone
  -- Either this caller can take a step, or it waits for one that holds the lock, and that one can.
  obtain ⟨c', hstep⟩ | ⟨lock, hheld⟩ : (∃ c', c.step? i = some c') ∨ ∃ lock, c.isHeld lock = true := by
    by_cases hfree : ∀ lock, s = .queued lock → c.isHeld lock = false
    · exact .inl (step?_of_ready hi hdone hfree)
    · push Not at hfree
      obtain ⟨lock, -, hheld⟩ := hfree
      exact .inr ⟨lock, by simpa using hheld⟩
  · simp [hstuck] at hstep
  · obtain ⟨t, ht, hlock⟩ := List.any_eq_true.mp hheld
    obtain ⟨j, hj⟩ := List.getElem?_of_mem ht
    have hlock : t.held? = some lock := by simpa using hlock
    obtain ⟨c', hstep⟩ := step?_of_ready hj (by rintro answer rfl; cases hlock)
      (by rintro other rfl; cases hlock)
    simp [hstuck] at hstep

theorem remaining_step (h : c.step? i = some c') : c'.remaining < c.remaining := by
  obtain ⟨s, s', c₁, hi, hadvance, rfl⟩ := step?_advance h
  unfold remaining move
  rw [hadvance.callers]
  exact CallerState.allRemaining_set hi hadvance.remaining

namespace Race

variable {states : σ → Prop} {k : Nat}

theorem remaining (h : Race states c k c') : k + c'.remaining ≤ c.remaining := by
  induction h with
  | refl => simp
  | edit _ _ ih => exact ih
  | step _ hstep ih =>
    have := remaining_step hstep
    omega

/-- Whoever can take a step in one round does. -/
theorem foldl_step? {c₀ : Crowd σ} (is : List Nat) (h : Race states c₀ k c) :
    ∃ more, Race states c₀ (k + more) (is.foldl (fun c i => (c.step? i).getD c) c) ∧
      ((∃ i ∈ is, ∃ c', c.step? i = some c') → 0 < more) := by
  induction is generalizing k c with
  | nil => exact ⟨0, h, nofun⟩
  | cons i is ih =>
    rw [List.foldl_cons]
    cases hstep : c.step? i with
    | none =>
      obtain ⟨more, hrace, hmore⟩ := ih h
      refine ⟨more, hrace, ?_⟩
      rintro ⟨j, hj, c', hj'⟩
      rcases List.mem_cons.mp hj with rfl | hj
      · simp [hstep] at hj'
      · exact hmore ⟨j, hj, c', hj'⟩
    | some c' =>
      obtain ⟨more, hrace, -⟩ := ih (h.step hstep)
      refine ⟨more + 1, ?_, fun _ => Nat.succ_pos more⟩
      rw [Nat.add_comm more, ← Nat.add_assoc]
      exact hrace

end Race

theorem rounds_of_stuck (hstuck : ∀ i, c.step? i = none) (m : Nat) : c.rounds m = c := by
  have hround : c.round = c := by
    unfold round
    induction List.range c.callers.length with
    | nil => rfl
    | cons i is ih => rwa [List.foldl_cons, hstuck, Option.getD_none]
  induction m with
  | zero => rfl
  | succ m ih => rw [Crowd.rounds, hround, ih]

theorem lt_of_step? (h : c.step? i = some c') : i < c.callers.length := by
  obtain ⟨s, -, -, hi, -⟩ := step?_advance h
  exact (List.getElem?_eq_some_iff.mp hi).1

variable {states : σ → Prop} {k : Nat}

/-- In every round somebody takes a step, unless nobody can take one any more. -/
theorem Race.rounds {c₀ : Crowd σ} (m : Nat) (h : Race states c₀ k c) :
    ∃ more, Race states c₀ (k + more) (c.rounds m) ∧
      (m ≤ more ∨ ∀ i, (c.rounds m).step? i = none) := by
  induction m generalizing k c with
  | zero => exact ⟨0, h, .inl (Nat.le_refl 0)⟩
  | succ m ih =>
    by_cases hstuck : ∀ i, c.step? i = none
    · rw [rounds_of_stuck hstuck]
      exact ⟨0, h, .inr hstuck⟩
    · obtain ⟨i, hi⟩ := not_forall.mp hstuck
      obtain ⟨c', hstep⟩ := Option.ne_none_iff_exists'.mp hi
      obtain ⟨first, hfirst, hmore⟩ := foldl_step? (List.range c.callers.length) h
      obtain ⟨more, hrace, hend⟩ := ih hfirst
      have hpos := hmore ⟨i, List.mem_range.mpr (lt_of_step? hstep), c', hstep⟩
      refine ⟨first + more, Nat.add_assoc k first more ▸ hrace, ?_⟩
      rcases hend with hlong | hstuck
      · left
        omega
      · exact .inr hstuck

/-- Nobody can take a step any more when the callers have settled. -/
theorem race_settle (c : Crowd σ) (states : σ → Prop) :
    (∃ k, Race states c k c.settle) ∧ ∀ i, c.settle.step? i = none := by
  have hbegin : Race states c 0 c := .refl
  obtain ⟨k, hrace, hend⟩ := hbegin.rounds (longestCourse * c.callers.length)
  refine ⟨⟨_, hrace⟩, ?_⟩
  rcases hend with hlong | hstuck
  · intro i
    by_contra hstep
    obtain ⟨c', hstep⟩ := Option.ne_none_iff_exists'.mp hstep
    have hless := remaining_step hstep
    have hleft := hrace.remaining
    have hmost := c.remaining_le
    unfold settle at hless
    omega
  · exact hstuck

end Crowd

end Scriptorium

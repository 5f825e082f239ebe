import Scriptorium.Script.Check

/-!
# Steps of the check

A step of the check is followed through a registry: `eval` tells its result and
the state that it leaves. Faults are only ever added, so when none is found in
the end, none was found by any step on the way.
-/

namespace Scriptorium.ScriptCheck

universe u

variable {α β : Type} {types : Registry}

/-- The result of a step and the state after it, when lookups are answered by a registry. -/
def eval (types : Registry) (x : Checking α) (s : ScriptCheck) : α × ScriptCheck :=
  (x.run s).run types

@[simp] theorem eval_pure (a : α) (s : ScriptCheck) :
    eval types (pure a) s = (a, s) := rfl

@[simp] theorem eval_bind (x : Checking α) (f : α → Checking β) (s : ScriptCheck) :
    eval types (x >>= f) s = eval types (f (eval types x s).1) (eval types x s).2 := by
  unfold eval
  simp only [StateT.run_bind, Inquiry.run_bind]

@[simp] theorem eval_map (f : α → β) (x : Checking α) (s : ScriptCheck) :
    eval types (f <$> x) s = (f (eval types x s).1, (eval types x s).2) := by
  have h : f <$> x = x >>= fun a => pure (f a) := rfl
  rw [h, eval_bind, eval_pure]

@[simp] theorem eval_get (s : ScriptCheck) : eval types get s = (s, s) := rfl

@[simp] theorem eval_set (s s' : ScriptCheck) :
    eval types (set s' : Checking PUnit) s = (⟨⟩, s') := rfl

@[simp] theorem eval_modify (f : ScriptCheck → ScriptCheck) (s : ScriptCheck) :
    eval types (modify f : Checking PUnit) s = (⟨⟩, f s) := rfl

@[simp] theorem eval_lift (x : Inquiry α) (s : ScriptCheck) :
    eval types (x : Checking α) s = (x.run types, s) := by
  have h : eval types (x : Checking α) s = (x >>= fun a => pure (a, s)).run types := rfl
  rw [h, Inquiry.run_bind, Inquiry.run_pure]

@[simp] theorem eval_fault (f : ScriptFault) (s : ScriptCheck) :
    eval types (fault f) s = ((), { s with faults := s.faults ++ [f] }) := rfl

@[simp] theorem eval_refuse (f : ScriptFault) (s : ScriptCheck) :
    eval types (refuse f : Checking (Option α)) s =
      (none, { s with faults := s.faults ++ [f] }) := rfl

end Scriptorium.ScriptCheck

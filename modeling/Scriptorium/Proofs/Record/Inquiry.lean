import Scriptorium.Record.Inquiry

/-!
# What is true of an inquiry whatever it is told

A computation that asks for record types is followed along all answers that it
may get. A property of its result may also speak of the first answer that was a
failure, and is carried through sequences of computations from the parts.
-/

namespace Scriptorium

/-- The error, where there is one instead of a value. -/
def failureOf {ε : Type u} {α : Type v} : Except ε α → Option ε
  | .error cause => some cause
  | .ok _ => none

namespace Inquiry

instance : LawfulMonad Inquiry :=
  .mk' Inquiry
    (fun x => by
      induction x with
      | answer a => rfl
      | ask name next ih => exact congrArg (ask name) (funext ih))
    (fun _ _ => rfl)
    (fun x f g => by
      induction x with
      | answer a => rfl
      | ask name next ih => exact congrArg (ask name) (funext ih))

section Always

variable {α β : Type} {P : β → Prop}

/-- Whatever is answered, the result is one of these. -/
def Always (P : α → Prop) : Inquiry α → Prop
  | answer a => P a
  | ask _ next => ∀ found, (next found).Always P

theorem Always.bind {f : α → Inquiry β} (h : ∀ a, (f a).Always P) (x : Inquiry α) :
    (x >>= f).Always P := by
  induction x with
  | answer a => exact h a
  | ask name next ih => exact fun found => ih found

theorem Always.map {P : α → Prop} {Q : β → Prop} {x : Inquiry α} (h : x.Always P) {g : α → β}
    (hg : ∀ a, P a → Q (g a)) : (g <$> x).Always Q := by
  induction x with
  | answer a => exact hg a h
  | ask name next ih => exact fun found => ih found (h found)

theorem Always.runWith {σ : Type} {x : Inquiry β} (h : x.Always P)
    (source : QualifiedName → σ → Lookup × σ) (s : σ) : P (x.runWith source s).1 := by
  induction x generalizing s with
  | answer a => exact h
  | ask name next ih => exact ih _ (h _) _

end Always

section Reports

variable {α β : Type} {P Q : Option RepositoryError → α → Prop}

/-- The error of the first lookup that fails, when lookups are answered by a source. -/
def firstFailure {σ : Type} (source : QualifiedName → σ → Lookup × σ) :
    Inquiry α → σ → Option RepositoryError
  | answer _, _ => none
  | ask name next, s =>
    let (found, s') := source name s
    (failureOf found).or ((next found).firstFailure source s')

/-- Whatever is answered, the first failure among the answers and the result are such a pair. -/
inductive Reports : (Option RepositoryError → α → Prop) → Inquiry α → Prop
  | answer {P : Option RepositoryError → α → Prop} {a : α} (h : P none a) : Reports P (answer a)
  | ask {P : Option RepositoryError → α → Prop} {name : QualifiedName}
    {next : Lookup → Inquiry α}
    (h : ∀ found, Reports (fun failed a => P ((failureOf found).or failed) a) (next found)) :
    Reports P (ask name next)

theorem Reports.mono {x : Inquiry α} (h : x.Reports P) (k : ∀ failed a, P failed a → Q failed a) :
    x.Reports Q := by
  induction h generalizing Q with
  | answer h => exact .answer (k none _ h)
  | ask _ ih => exact .ask fun found => ih found fun failed a => k _ a

/-- A sequence reports the failure of its first part, or else that of the second. -/
theorem Reports.bind {P : Option RepositoryError → β → Prop} {x : Inquiry α} {f : α → Inquiry β}
    (h : x.Reports fun failed a => (f a).Reports fun later b => P (failed.or later) b) :
    (x >>= f).Reports P := by
  induction x generalizing P with
  | answer a =>
    cases h with
    | answer h => exact h
  | ask name next ih =>
    cases h with
    | ask h =>
      refine .ask fun found => ih found ((h found).mono fun failed a k => ?_)
      exact k.mono fun later b hb => by rwa [Option.or_assoc] at hb

/-- What holds whatever is answered holds for any source of answers. -/
theorem Reports.runWith {σ : Type} {x : Inquiry α} (h : x.Reports P)
    (source : QualifiedName → σ → Lookup × σ) (s : σ) :
    P (x.firstFailure source s) (x.runWith source s).1 := by
  induction h generalizing s with
  | answer h => exact h
  | ask _ ih => exact ih _ _

end Reports

end Inquiry

end Scriptorium

import Scriptorium.Proofs.Repository.Memory
import Scriptorium.Repository.Transaction

/-!
# Transactions in a repository that comes and goes

In front of every request a repository may become available or unavailable.
Work in a transaction changes the contents and nothing else, and the contents
are restored when the work or the commit fails, because a transaction can be
undone while the repository is unavailable.
-/

namespace Scriptorium

namespace Transaction

variable {σ ε α : Type} [CodeRepository σ]

/-- The ways in which work in a transaction may go, with the outcome and the repository at the
end. -/
inductive Course (refused : RepositoryError → ε) (work : Work σ ε α) (s : σ) :
    Except ε α → σ → Prop
  | unopened {cause : RepositoryError} {s' : σ}
    (hbegin : CodeRepository.call .begin s = (.error cause, s')) :
    Course refused work s (.error (refused cause)) s'
  | failed {cause : ε} {s₁ s₂ : σ} (hbegin : CodeRepository.call .begin s = (.ok (), s₁))
    (hwork : work s₁ = (.error cause, s₂)) :
    Course refused work s (.error cause) (CodeRepository.call .rollback s₂).2
  | unkept {a : α} {cause : RepositoryError} {s₁ s₂ s₃ : σ}
    (hbegin : CodeRepository.call .begin s = (.ok (), s₁)) (hwork : work s₁ = (.ok a, s₂))
    (hcommit : CodeRepository.call .commit s₂ = (.error cause, s₃)) :
    Course refused work s (.error (refused cause)) (CodeRepository.call .rollback s₃).2
  | kept {a : α} {s₁ s₂ s₃ : σ} (hbegin : CodeRepository.call .begin s = (.ok (), s₁))
    (hwork : work s₁ = (.ok a, s₂)) (hcommit : CodeRepository.call .commit s₂ = (.ok (), s₃)) :
    Course refused work s (.ok a) s₃

theorem run_course (refused : RepositoryError → ε) (work : Work σ ε α) (s : σ) :
    Course refused work s (run refused work s).1 (run refused work s).2 := by
  unfold run
  split
  · next hbegin => exact .unopened hbegin
  · next s₁ hbegin =>
    split
    · next hwork => exact .failed hbegin hwork
    · next a s₂ hwork =>
      unfold conclude
      split
      · next hcommit => exact .unkept hbegin hwork hcommit
      · next hcommit => exact .kept hbegin hwork hcommit

/-- What holds in front of the work holds behind it, however it goes. -/
def Keeps (P : σ → Prop) (work : Work σ ε α) : Prop := ∀ s, P s → P (work s).2

/-- What every request keeps is kept by work in a transaction. -/
theorem keeps_run {P : σ → Prop}
    (hcall : ∀ {β : Type} (q : Request β) (s : σ), P s → P (CodeRepository.call q s).2)
    (refused : RepositoryError → ε) {work : Work σ ε α} (hwork : Keeps P work) :
    Keeps P (run refused work) := by
  have hafter {β : Type} {q : Request β} {answer : Except RepositoryError β} {s s' : σ} (h : P s)
      (hq : CodeRepository.call q s = (answer, s')) : P s' := by
    have hs := hcall q s h
    rwa [hq] at hs
  intro s h
  cases hrun : run refused work s with
  | mk outcome s' =>
    have hcourse := run_course refused work s
    rw [hrun] at hcourse
    have hworked {s₁ s₂ : σ} {outcome : Except ε α}
        (hbegin : CodeRepository.call .begin s = (.ok (), s₁))
        (hw : work s₁ = (outcome, s₂)) : P s₂ := by
      have hs := hwork s₁ (hafter h hbegin)
      rwa [hw] at hs
    cases hcourse with
    | unopened hbegin => exact hafter h hbegin
    | failed hbegin hw => exact hcall _ _ (hworked hbegin hw)
    | unkept hbegin hw hcommit => exact hcall _ _ (hafter (hworked hbegin hw) hcommit)
    | kept hbegin hw hcommit => exact hafter (hworked hbegin hw) hcommit

end Transaction

/-- Every request is answered by a repository in memory, which may have become available or
unavailable before. -/
class MemoryBacked (σ : Type) [CodeRepository σ] where
  inner : σ → MemoryRepository
  call_inner {α : Type} (q : Request α) (s : σ) : ∃ available,
    MemoryRepository.call Thread.main q ((inner s).setAvailable available) =
      ((CodeRepository.call q s).1, inner (CodeRepository.call q s).2)

instance : MemoryBacked MemoryRepository := ⟨id, fun _ r => ⟨r.available, rfl⟩⟩

/-- A repository that becomes available or unavailable in front of each of the requests to come, as
far as it is written down, and stays as it is then. -/
structure IntermittentRepository where
  inner : MemoryRepository
  schedule : List Bool

namespace IntermittentRepository

/-- The repository when the next request arrives. -/
def next (s : IntermittentRepository) : IntermittentRepository :=
  match s.schedule with
  | [] => s
  | available :: rest => ⟨s.inner.setAvailable available, rest⟩

instance : CodeRepository IntermittentRepository where
  call q s :=
    let (answer, inner) := CodeRepository.call q s.next.inner
    (answer, { s.next with inner })

theorem inner_next (s : IntermittentRepository) :
    ∃ available, s.next.inner = s.inner.setAvailable available := by
  unfold next
  split
  · exact ⟨s.inner.available, rfl⟩
  · next available rest _ => exact ⟨available, rfl⟩

instance : MemoryBacked IntermittentRepository where
  inner := inner
  call_inner q s := by
    obtain ⟨available, hnext⟩ := s.inner_next
    refine ⟨available, ?_⟩
    rw [← hnext]
    rfl

end IntermittentRepository

namespace MemoryBacked

variable {σ : Type} [CodeRepository σ] [MemoryBacked σ] {s s' : σ}

/-- The request is answered or refused by the repository in memory. -/
theorem inner_call {α : Type} {q : Request α} {answer : Except RepositoryError α}
    (h : CodeRepository.call q s = (answer, s')) :
    ∃ available, MemoryRepository.call Thread.main q ((inner s).setAvailable available) =
      (answer, inner s') := by
  obtain ⟨available, hcall⟩ := call_inner q s
  rw [h] at hcall
  exact ⟨available, hcall⟩

/-- A request that is refused changes nothing. -/
theorem sameState_error {α : Type} {q : Request α} {cause : RepositoryError}
    (h : CodeRepository.call q s = (.error cause, s')) : (inner s).SameState (inner s') := by
  obtain ⟨available, hcall⟩ := inner_call h
  rw [MemoryRepository.call_error hcall]
  exact .setAvailable _ _

theorem sameState_load (name : QualifiedName) (s : σ) :
    (inner s).SameState (inner (CodeRepository.call (.load name) s).2) := by
  obtain ⟨available, hcall⟩ := call_inner (.load name) s
  have hload := MemoryRepository.call_load Thread.main name ((inner s).setAvailable available)
  rw [hcall] at hload
  simp only at hload
  rw [hload]
  exact .setAvailable _ _

/-- The repository is in a transaction that was opened in another state. -/
def InTransaction (before : MemoryRepository) (s : σ) : Prop := before.InTransaction (inner s)

theorem inTransaction_begin (h : CodeRepository.call .begin s = (.ok (), s')) :
    InTransaction (inner s) s' := by
  obtain ⟨available, hcall⟩ := inner_call h
  obtain ⟨hidle, hversion, hopened⟩ := MemoryRepository.inTransaction_begin hcall
  exact ⟨hidle, hversion, hopened⟩

theorem inTransaction_save {before : MemoryRepository} (name : QualifiedName) (payload : String)
    (source : Option String) (s : σ) (h : InTransaction before s) :
    InTransaction before (CodeRepository.call (.save name payload source) s).2 := by
  obtain ⟨available, hcall⟩ := call_inner (.save name payload source) s
  have hsave := (MemoryRepository.InTransaction.of_sameState h (.setAvailable _ available)).save
    Thread.main name payload source
  rwa [hcall] at hsave

theorem inTransaction_deleteUnder {before : MemoryRepository} (package : Package) (s : σ)
    (h : InTransaction before s) :
    InTransaction before (CodeRepository.call (.deleteUnder package) s).2 := by
  obtain ⟨available, hcall⟩ := call_inner (.deleteUnder package) s
  have hdelete := (MemoryRepository.InTransaction.of_sameState h
    (.setAvailable _ available)).deleteUnder Thread.main package
  rwa [hcall] at hdelete

theorem sameState_rollback {before : MemoryRepository} (h : InTransaction before s) :
    before.SameState (inner (CodeRepository.call .rollback s).2) := by
  obtain ⟨available, hcall⟩ := call_inner .rollback s
  have hundone := (MemoryRepository.InTransaction.of_sameState h
    (.setAvailable _ available)).rollback Thread.main
  rwa [hcall] at hundone

/-- A transaction that fails leaves the state as it was, when its work leaves it open. -/
theorem run_error {ε α : Type} {refused : RepositoryError → ε} {work : Work σ ε α}
    (hwork : ∀ before, Transaction.Keeps (InTransaction before) work) {cause : ε}
    (h : Transaction.run refused work s = (.error cause, s')) :
    (inner s).SameState (inner s') := by
  have hcourse := Transaction.run_course refused work s
  rw [h] at hcourse
  have hopen {s₁ s₂ : σ} {outcome : Except ε α}
      (hbegin : CodeRepository.call .begin s = (.ok (), s₁)) (hw : work s₁ = (outcome, s₂)) :
      InTransaction (inner s) s₂ := by
    have hs := hwork (inner s) s₁ (inTransaction_begin hbegin)
    rwa [hw] at hs
  cases hcourse with
  | unopened hbegin => exact sameState_error hbegin
  | failed hbegin hw => exact sameState_rollback (hopen hbegin hw)
  | unkept hbegin hw hcommit =>
    -- A commit that is refused leaves the transaction open.
    exact sameState_rollback (MemoryRepository.InTransaction.of_sameState (hopen hbegin hw)
      (sameState_error hcommit))

end MemoryBacked

end Scriptorium

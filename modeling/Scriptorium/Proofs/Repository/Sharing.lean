import Scriptorium.Proofs.Repository.Memory
import Scriptorium.Proofs.Text.Numeral

/-!
# A repository that others change

Other programs commit changes to a repository, and it becomes available or
unavailable, between any two requests. Every commit advances the version, so
the contents are the same as long as the version is.
-/

namespace Scriptorium

/-- The mark of a numbered state. -/
def VersionToken.numbered (n : Nat) : VersionToken := ⟨String.ofList (Text.natDigits n)⟩

theorem VersionToken.numbered_inj {m n : Nat} (h : numbered m = numbered n) : m = n := by
  have hdigits : Text.natDigits m = Text.natDigits n :=
    String.ofList_injective (VersionToken.mk.inj h)
  rw [← Text.digitsValue_natDigits m, hdigits, Text.digitsValue_natDigits]

/-- Something that happens to a repository from outside. -/
inductive Disturbance where
  /-- Somebody else commits a change, which leaves these contents. -/
  | commit (entries : Contents)
  | setAvailable (available : Bool)

namespace MemoryRepository

/-- The repository after the disturbance. -/
def disturb (r : MemoryRepository) : Disturbance → MemoryRepository
  | .commit entries => { r.touch with entries }
  | .setAvailable available => r.setAvailable available

/-- The state may have followed on the other one. -/
structure Later (r r' : MemoryRepository) : Prop where
  version : r.version ≤ r'.version
  entries : r'.version = r.version → r'.entries = r.entries

namespace Later

variable {r r' r'' : MemoryRepository}

theorem refl (r : MemoryRepository) : Later r r := ⟨Nat.le_refl _, fun _ => rfl⟩

theorem trans (h : Later r r') (k : Later r' r'') : Later r r'' where
  version := Nat.le_trans h.version k.version
  entries hsame := by
    have hfirst : r'.version = r.version :=
      Nat.le_antisymm (hsame ▸ k.version) h.version
    rw [k.entries (hsame.trans hfirst.symm), h.entries hfirst]

end Later

theorem later_disturb (r : MemoryRepository) (d : Disturbance) : Later r (r.disturb d) := by
  cases d with
  | commit entries =>
    have hversion : (r.disturb (.commit entries)).version = r.version + 1 := rfl
    exact ⟨by omega, by omega⟩
  | setAvailable available => exact ⟨Nat.le_refl _, fun _ => rfl⟩

theorem later_disturbAll (r : MemoryRepository) (ds : List Disturbance) :
    Later r (ds.foldl disturb r) := by
  induction ds generalizing r with
  | nil => exact .refl r
  | cons d ds ih => exact (r.later_disturb d).trans (ih _)

end MemoryRepository

/-- A repository that is disturbed in front of each of the requests to come, as far as it is written
down, and is left alone then. -/
structure SharedRepository where
  inner : MemoryRepository
  coming : List (List Disturbance)

namespace SharedRepository

/-- The repository when the next request arrives. -/
def next (s : SharedRepository) : SharedRepository :=
  match s.coming with
  | [] => s
  | ds :: rest => ⟨ds.foldl MemoryRepository.disturb s.inner, rest⟩

instance : CodeRepository SharedRepository where
  call q s :=
    let (answer, inner) := CodeRepository.call q s.next.inner
    (answer, { s.next with inner })

theorem later_next (s : SharedRepository) : s.inner.Later s.next.inner := by
  unfold next
  split
  · exact .refl s.inner
  · exact s.inner.later_disturbAll _

/-- The version is read from the repository as the request finds it. -/
theorem call_version (s : SharedRepository) :
    CodeRepository.call .version s =
      (if s.next.inner.available then .ok (.numbered s.next.inner.version)
        else .error MemoryRepository.unavailable, s.next) := by
  change ((MemoryRepository.call Thread.main .version s.next.inner).1,
    { s.next with inner := (MemoryRepository.call Thread.main .version s.next.inner).2 }) = _
  rw [MemoryRepository.call_version]
  unfold MemoryRepository.call
  cases s.next.inner.available <;> rfl

/-- A payload is read from the contents as the request finds them. -/
theorem call_load (name : QualifiedName) (s : SharedRepository) :
    CodeRepository.call (.load name) s =
      (if s.next.inner.available then .ok ((s.next.inner.entries.get? name).map (·.payload))
        else .error MemoryRepository.unavailable, s.next) := by
  change ((MemoryRepository.call Thread.main (.load name) s.next.inner).1,
    { s.next with inner := (MemoryRepository.call Thread.main (.load name) s.next.inner).2 }) = _
  rw [MemoryRepository.call_load]
  unfold MemoryRepository.call
  cases s.next.inner.available <;> rfl

end SharedRepository

end Scriptorium

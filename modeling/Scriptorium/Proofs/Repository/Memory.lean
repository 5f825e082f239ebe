import Scriptorium.Repository.Memory

/-!
# What requests do to a repository in memory

A request that is refused changes nothing. Work in a transaction changes the
contents and nothing else, and undoing the transaction restores them.
-/

namespace Scriptorium

namespace MemoryRepository

variable {r r' before : MemoryRepository} {thread : Thread}

/-- The two repositories hold the same contents, version and transaction. -/
structure SameState (r r' : MemoryRepository) : Prop where
  entries : r'.entries = r.entries
  version : r'.version = r.version
  transaction : r'.transaction = r.transaction

namespace SameState

theorem refl (r : MemoryRepository) : SameState r r := ⟨rfl, rfl, rfl⟩

theorem trans {r'' : MemoryRepository} (h : SameState r r') (k : SameState r' r'') :
    SameState r r'' :=
  ⟨k.entries.trans h.entries, k.version.trans h.version, k.transaction.trans h.transaction⟩

theorem setAvailable (r : MemoryRepository) (available : Bool) :
    SameState r (r.setAvailable available) := ⟨rfl, rfl, rfl⟩

/-- Repositories in the same state differ in their availability alone. -/
theorem eq_of_available (h : SameState r r') (havailable : r'.available = r.available) :
    r' = r := by
  obtain ⟨entries, version, transaction⟩ := h
  cases r
  cases r'
  simp only at entries version transaction havailable
  simp only [entries, version, transaction, havailable]

end SameState

/-- Loading changes nothing. -/
theorem call_load (thread : Thread) (name : QualifiedName) (r : MemoryRepository) :
    (call thread (.load name) r).2 = r := by
  unfold call
  split <;> rfl

theorem call_version (thread : Thread) (r : MemoryRepository) :
    (call thread .version r).2 = r := by
  unfold call
  split <;> rfl

/-- A request that is refused changes nothing. -/
theorem call_error {α : Type} {q : Request α} {cause : RepositoryError}
    (h : call thread q r = (.error cause, r')) : r' = r := by
  unfold call at h
  split at h
  · cases h
    rfl
  · cases q with
    | load name => cases h
    | save name payload source =>
      simp only [perform, save] at h
      split at h <;> cases h
      rfl
    | deleteUnder package => cases h
    | source name => cases h
    | version => cases h
    | begin =>
      simp only [perform, begin] at h
      split at h <;> cases h
      rfl
    | commit =>
      simp only [perform, commit] at h
      split at h <;> cases h
      rfl
    | rollback =>
      simp only [perform, rollback] at h
      split at h <;> cases h
      rfl

/-- What is done when a request is answered. -/
theorem call_ok {α : Type} {q : Request α} {a : α} (h : call thread q r = (.ok a, r')) :
    perform thread q r = (.ok a, r') := by
  unfold call at h
  split at h
  · cases h
  · exact h

/-- No request makes the repository available or unavailable. -/
theorem call_available {α : Type} (thread : Thread) (q : Request α) (r : MemoryRepository) :
    (call thread q r).2.available = r.available := by
  have hchange (entries : Contents) : (r.change entries).available = r.available := by
    unfold change
    split <;> rfl
  unfold call
  split
  · rfl
  · cases q with
    | load name => rfl
    | save name payload source =>
      simp only [perform, save]
      split
      · rfl
      · exact hchange _
    | deleteUnder package =>
      simp only [perform, deleteUnder]
      split
      · rfl
      · exact hchange _
    | source name => rfl
    | version => rfl
    | begin =>
      simp only [perform, begin]
      split <;> rfl
    | commit =>
      simp only [perform, commit]
      split <;> rfl
    | rollback =>
      simp only [perform, rollback]
      split <;> rfl

theorem entries_change (r : MemoryRepository) (entries : Contents) :
    (r.change entries).entries = entries := by
  unfold change
  split <;> rfl

theorem save_ok {name : QualifiedName} {payload : String} {source : Option String}
    (h : call thread (.save name payload source) r = (.ok (), r')) :
    r.entries.get? name = none ∧ r'.entries = r.entries.insert name ⟨payload, source⟩ := by
  have hperform := call_ok h
  simp only [perform, save] at hperform
  split at hperform
  · cases hperform
  · next hfree =>
    cases hperform
    exact ⟨by simpa [Dictionary.contains] using hfree, entries_change r _⟩

/-- A deletion that counts a unit leaves the units that the package does not cover. -/
theorem deleteUnder_ok {package : Package} {n : Nat}
    (h : call thread (.deleteUnder package) r = (.ok (n + 1), r')) :
    r'.entries = r.entries.filterKeys fun name => !package.covers name := by
  have hperform := call_ok h
  simp only [perform, deleteUnder, Prod.mk.injEq, Except.ok.injEq] at hperform
  obtain ⟨hcount, hafter⟩ := hperform
  rw [if_neg (by omega)] at hafter
  rw [← hafter]
  exact entries_change r _

theorem commit_ok (h : call thread .commit r = (.ok (), r')) :
    r'.entries = r.entries ∧ r'.transaction = none := by
  have hperform := call_ok h
  simp only [perform, commit] at hperform
  split at hperform <;> cases hperform
  exact ⟨rfl, rfl⟩

theorem begin_ok (h : call thread .begin r = (.ok (), r')) :
    r.transaction = none ∧ r' = { r with transaction := some ⟨thread, r.entries, false⟩ } := by
  have hperform := call_ok h
  simp only [perform, begin] at hperform
  split at hperform
  · cases hperform
  · next hnone =>
    cases hperform
    exact ⟨hnone, rfl⟩

/-- The repository is in a transaction that was opened in another state. -/
structure InTransaction (before r : MemoryRepository) : Prop where
  idle : before.transaction = none
  version : r.version = before.version
  opened : ∃ t, r.transaction = some t ∧ t.snapshot = before.entries

theorem inTransaction_begin (h : call thread .begin r = (.ok (), r')) : InTransaction r r' := by
  obtain ⟨hnone, rfl⟩ := begin_ok h
  exact ⟨hnone, rfl, _, rfl, rfl⟩

namespace InTransaction

theorem of_sameState (h : InTransaction before r) (k : SameState r r') :
    InTransaction before r' where
  idle := h.idle
  version := k.version.trans h.version
  opened := by
    rw [k.transaction]
    exact h.opened

theorem change (h : InTransaction before r) (entries : Contents) :
    InTransaction before (r.change entries) := by
  obtain ⟨t, ht, hsnapshot⟩ := h.opened
  unfold MemoryRepository.change
  rw [ht]
  exact ⟨h.idle, h.version, _, rfl, hsnapshot⟩

theorem save (h : InTransaction before r) (thread : Thread) (name : QualifiedName)
    (payload : String) (source : Option String) :
    InTransaction before (call thread (.save name payload source) r).2 := by
  unfold call
  split
  · exact h
  · simp only [perform, MemoryRepository.save]
    split
    · exact h
    · exact h.change _

theorem deleteUnder (h : InTransaction before r) (thread : Thread) (package : Package) :
    InTransaction before (call thread (.deleteUnder package) r).2 := by
  unfold call
  split
  · exact h
  · simp only [perform, MemoryRepository.deleteUnder]
    split
    · exact h
    · exact h.change _

/-- Undoing a transaction restores the state in which it was opened. -/
theorem rollback (h : InTransaction before r) (thread : Thread) :
    SameState before (call thread .rollback r).2 := by
  obtain ⟨t, ht, hsnapshot⟩ := h.opened
  have hcall : (call thread .rollback r).2 =
      { r with entries := t.snapshot, transaction := none } := by
    simp only [call, needsAvailable, Bool.false_and, Bool.false_eq_true, if_false, perform,
      MemoryRepository.rollback, ht]
  rw [hcall]
  exact ⟨hsnapshot, h.version, h.idle.symm⟩

end InTransaction

end MemoryRepository

end Scriptorium

import Scriptorium.Proofs.Repository.Memory

/-!
# Threads that share a repository

Any number of threads call one repository in memory, and their calls interleave
in any way. Whether the repository is available is asked when a call arrives. A
call that is admitted waits while another thread has a transaction open, and is
then carried out at once. The completed calls, in the order of their
completion, are all that the threads see.
-/

namespace Scriptorium

namespace MemoryRepository

/-- What a thread may call, by the type of the answer. -/
inductive Call : Type → Type 1 where
  | request {α : Type} (q : Request α) : Call α
  | names : Call (List QualifiedName)
  | touch : Call Unit

namespace Call

/-- Carries out a call that need not wait. -/
def perform {α : Type} (thread : Thread) : Call α → MemoryRepository → Reply MemoryRepository α
  | .request q, r => MemoryRepository.perform thread q r
  | .names, r => (.ok r.names, r)
  | .touch, r => (.ok (), r.touch)

/-- The call is admitted only while the repository is available. -/
def needsAvailable {α : Type} : Call α → Bool
  | .request q => MemoryRepository.needsAvailable q
  | .names | .touch => false

end Call

/-- A call that has been answered. -/
structure Completion where
  thread : Thread
  {α : Type}
  call : Call α
  answer : Except RepositoryError α

/-- A repository and the calls that have been admitted and not yet answered, at most one of each
thread. -/
structure Threads where
  repository : MemoryRepository
  pending : Thread → Option (Σ α : Type, Call α)

namespace Threads

def start : Threads := ⟨.empty, fun _ => none⟩

/-- The threads with another pending call of one of them. -/
def setPending (s : Threads) (thread : Thread) (call : Option (Σ α : Type, Call α)) : Threads :=
  { s with pending := fun t => if t = thread then call else s.pending t }

/-- One step of some thread, with the call that it completes, if it completes one. -/
inductive Step (s : Threads) : List Completion → Threads → Prop
  | setAvailable (available : Bool) :
    Step s [] { s with repository := s.repository.setAvailable available }
  | refuse {thread : Thread} {α : Type} {call : Call α} (hidle : s.pending thread = none)
    (hneeds : call.needsAvailable = true) (hdown : s.repository.available = false) :
    Step s [⟨thread, call, .error unavailable⟩] s
  | enter {thread : Thread} {α : Type} {call : Call α} (hidle : s.pending thread = none)
    (hup : call.needsAvailable = true → s.repository.available = true) :
    Step s [] (s.setPending thread (some ⟨α, call⟩))
  | complete {thread : Thread} {α : Type} {call : Call α}
    (hpending : s.pending thread = some ⟨α, call⟩)
    (hturn : s.repository.mustWait thread = false) :
    Step s [⟨thread, call, (call.perform thread s.repository).1⟩]
      { s.setPending thread none with repository := (call.perform thread s.repository).2 }

/-- Any number of steps, with the calls completed on the way. -/
inductive Run (s : Threads) : List Completion → Threads → Prop
  | refl : Run s [] s
  | step {h e : List Completion} {s' s'' : Threads} (hrun : Run s h s') (hstep : Step s' e s'') :
    Run s (h ++ e) s''

end Threads

/-- A change of the contents. -/
inductive Change where
  | save (name : QualifiedName) (u : StoredUnit)
  | delete (package : Package)

namespace Change

/-- The contents after the change. -/
def apply (contents : Contents) : Change → Contents
  | .save name u => contents.insert name u
  | .delete package => contents.filterKeys fun name => !package.covers name

/-- The contents after changes of an empty repository. -/
def replay (changes : List Change) : Contents := changes.foldl apply ∅

end Change

/-- What a call does to the transaction of its thread. -/
inductive Boundary where
  | opened
  | committed
  | undone
  deriving DecidableEq

/-- The change that the call makes when it succeeds. -/
def Call.change? {α : Type} : Call α → Option Change
  | .request (.save name payload source) => some (.save name ⟨payload, source⟩)
  | .request (.deleteUnder package) => some (.delete package)
  | _ => none

/-- What the call does to the transaction of its thread when it succeeds. -/
def Call.boundary? {α : Type} : Call α → Option Boundary
  | .request .begin => some .opened
  | .request .commit => some .committed
  | .request .rollback => some .undone
  | _ => none

theorem Call.boundary?_of_change? {α : Type} {call : Call α} {c : Change}
    (h : call.change? = some c) : call.boundary? = none := by
  unfold Call.change? at h
  split at h
  · rfl
  · rfl
  · cases h

namespace Completion

def change? (e : Completion) : Option Change := if e.answer.isOk then e.call.change? else none

def boundary? (e : Completion) : Option Boundary :=
  if e.answer.isOk then e.call.boundary? else none

theorem boundary?_of_change? {e : Completion} {c : Change} (h : e.change? = some c) :
    e.boundary? = none := by
  unfold change? at h
  split at h
  · next hok => rw [boundary?, if_pos hok, Call.boundary?_of_change? h]
  · cases h

end Completion

/-- What a call does that need not wait. -/
inductive Outcome (r : MemoryRepository) (e : Completion) : MemoryRepository → Prop
  | unchanged (hchange : e.change? = none) (hboundary : e.boundary? = none) : Outcome r e r
  | touched (hchange : e.change? = none) (hboundary : e.boundary? = none) : Outcome r e r.touch
  /-- A deletion that finds nothing is no change of the repository. -/
  | idle {c : Change} (hchange : e.change? = some c) (hboundary : e.boundary? = none)
    (hnothing : c.apply r.entries = r.entries) : Outcome r e r
  | changed {c : Change} (hchange : e.change? = some c) (hboundary : e.boundary? = none) :
    Outcome r e (r.change (c.apply r.entries))
  | opened (hchange : e.change? = none) (hboundary : e.boundary? = some .opened)
    (hidle : r.transaction = none) :
    Outcome r e { r with transaction := some ⟨e.thread, r.entries, false⟩ }
  | committed {t : OpenTransaction} (hchange : e.change? = none)
    (hboundary : e.boundary? = some .committed) (hopen : r.transaction = some t) :
    Outcome r e { r with
      version := if t.dirty then r.version + 1 else r.version
      transaction := none }
  | undone {t : OpenTransaction} (hchange : e.change? = none)
    (hboundary : e.boundary? = some .undone) (hopen : r.transaction = some t) :
    Outcome r e { r with entries := t.snapshot, transaction := none }

variable {r : MemoryRepository} {thread : Thread}

theorem outcome_save (name : QualifiedName) (payload : String) (source : Option String) :
    Outcome r ⟨thread, .request (.save name payload source), (r.save name ⟨payload, source⟩).1⟩
      (r.save name ⟨payload, source⟩).2 := by
  unfold save
  split
  · exact .unchanged rfl rfl
  · exact .changed (c := .save name ⟨payload, source⟩) rfl rfl

theorem outcome_deleteUnder (package : Package) :
    Outcome r ⟨thread, .request (.deleteUnder package), (r.deleteUnder package).1⟩
      (r.deleteUnder package).2 := by
  unfold deleteUnder
  dsimp only
  split
  · next hnone =>
    -- As many entries as before are left, so they are the entries from before.
    apply Outcome.idle (c := .delete package) rfl rfl
    have hle := List.length_filter_le (fun e => !package.covers e.1) r.entries.entries
    have hlength : (r.entries.filterKeys fun name => !package.covers name).entries.length =
        r.entries.entries.length := Nat.le_antisymm hle (Nat.le_of_sub_eq_zero hnone)
    exact Dictionary.ext (List.filter_sublist.eq_of_length hlength)
  · exact .changed (c := .delete package) rfl rfl

theorem outcome_begin :
    Outcome r ⟨thread, .request .begin, (r.begin thread).1⟩ (r.begin thread).2 := by
  unfold begin
  split
  · exact .unchanged rfl rfl
  · next hidle => exact .opened rfl rfl hidle

theorem outcome_commit : Outcome r ⟨thread, .request .commit, r.commit.1⟩ r.commit.2 := by
  unfold commit
  split
  · exact .unchanged rfl rfl
  · next hopen => exact .committed rfl rfl hopen

theorem outcome_rollback : Outcome r ⟨thread, .request .rollback, r.rollback.1⟩ r.rollback.2 := by
  unfold rollback
  split
  · exact .unchanged rfl rfl
  · next hopen => exact .undone rfl rfl hopen

theorem outcome_perform {α : Type} (call : Call α) (thread : Thread) (r : MemoryRepository) :
    Outcome r ⟨thread, call, (call.perform thread r).1⟩ (call.perform thread r).2 := by
  cases call with
  | request q =>
    cases q with
    | load name => exact .unchanged rfl rfl
    | save name payload source => exact outcome_save name payload source
    | deleteUnder package => exact outcome_deleteUnder package
    | source name => exact .unchanged rfl rfl
    | version => exact .unchanged rfl rfl
    | begin => exact outcome_begin
    | commit => exact outcome_commit
    | rollback => exact outcome_rollback
  | names => exact .unchanged rfl rfl
  | touch => exact .touched rfl rfl

end MemoryRepository

end Scriptorium

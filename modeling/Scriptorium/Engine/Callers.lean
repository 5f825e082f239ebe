import Scriptorium.Engine.Basic

/-!
# Concurrent callers

Several callers ask the engine for the same unit at once, each in steps that
may interleave in any way. A caller reads the fast cache, looks in the current
generation, takes the lock that a table keeps for the name (a new one if there
is none), waits until it holds the lock, reads the fast cache again, compiles
if the unit is still missing, lets go of the lock, removes it from the table
when no one else refers to it, and only then refers to it no longer itself.
Each caller brings a source of its own to be compiled.
-/

namespace Scriptorium

/-- What a caller is given in the end. -/
abbrev Answer := Except ExecutionError ReadyUnit

/-- How far a caller has come. Locks are told apart by numbers. -/
inductive CallerState where
  /-- Nothing done yet. -/
  | arrived
  /-- The fast cache does not have the unit. -/
  | missed
  /-- The repository does not have it either, and there is a source to compile. -/
  | unstored
  /-- Refers to the lock without holding it. -/
  | queued (lock : Nat)
  /-- Holds the lock. -/
  | entered (lock : Nat)
  /-- Holds the lock and compiles. -/
  | compiling (lock : Nat)
  /-- Holds the lock and knows the answer. -/
  | leaving (lock : Nat) (answer : Answer)
  /-- Has let go of the lock but still refers to it. -/
  | released (lock : Nat) (answer : Answer)
  /-- Still refers to the lock after it has seen to the table. -/
  | parting (lock : Nat) (answer : Answer)
  /-- Has been given the answer. -/
  | done (answer : Answer)

namespace CallerState

/-- The lock that the caller refers to. -/
def lock? : CallerState → Option Nat
  | .queued lock | .entered lock | .compiling lock => some lock
  | .leaving lock _ | .released lock _ | .parting lock _ => some lock
  | _ => none

/-- The lock that the caller holds. -/
def held? : CallerState → Option Nat
  | .entered lock | .compiling lock | .leaving lock _ => some lock
  | _ => none

/-- The answer that the caller has been given. -/
def answer? : CallerState → Option Answer
  | .done answer => some answer
  | _ => none

end CallerState

/-- An engine and the callers that ask it for one unit. -/
structure Crowd (σ : Type) where
  engine : Engine σ
  name : QualifiedName
  /-- What each of the callers gives to be compiled. -/
  fallback : Nat → Option Fallback
  callers : List CallerState
  /-- The lock that the table keeps for the name. -/
  table : Option Nat
  /-- The number of locks made so far. -/
  locks : Nat

namespace Crowd

variable {σ : Type}

/-- So many callers that have done nothing yet. -/
def gather (engine : Engine σ) (name : QualifiedName) (fallback : Nat → Option Fallback) (n : Nat) :
    Crowd σ :=
  ⟨engine, name, fallback, List.replicate n .arrived, none, 0⟩

/-- Some caller holds the lock. -/
def isHeld (c : Crowd σ) (lock : Nat) : Bool := c.callers.any (·.held? = some lock)

/-- The number of callers that refer to the lock, and one more if the table does. -/
def references (c : Crowd σ) (lock : Nat) : Nat :=
  c.callers.countP (·.lock? = some lock) + if c.table = some lock then 1 else 0

/-- The crowd with one caller come to another state. -/
def move (c : Crowd σ) (i : Nat) (s : CallerState) : Crowd σ :=
  { c with callers := c.callers.set i s }

/-- The caller takes the lock of the name out of the table, which keeps it. -/
def takeLock (c : Crowd σ) (i : Nat) : Crowd σ :=
  match c.table with
  | some lock => c.move i (.queued lock)
  | none => { c.move i (.queued c.locks) with table := some c.locks, locks := c.locks + 1 }

/-- The caller clears the table when no one but the table and the caller refers to the lock. -/
def dropLock (c : Crowd σ) (i lock : Nat) (answer : Answer) : Crowd σ :=
  let table := if c.references lock = 2 then none else c.table
  { c.move i (.parting lock answer) with table }

variable [CodeRepository σ]

/-- The caller looks for the unit in the repository. -/
def lookUp (c : Crowd σ) (i : Nat) : Crowd σ :=
  let (found, engine) := c.engine.resolveStored c.name
  let c := { c with engine }
  match found, c.fallback i with
  | .ok u, _ => c.move i (.done (.ok u))
  | .error (.notFound _), none => c.move i (.done (.error (.notFound c.name)))
  | .error (.notFound _), some _ => c.move i .unstored
  | .error cause, _ => c.move i (.done (.error (.resolve cause)))

/-- The caller finishes compiling. -/
def finishCompiling (c : Crowd σ) (i lock : Nat) : Crowd σ :=
  let (answer, engine) := c.engine.compileMissing c.name (c.fallback i)
  { c with engine }.move i (.leaving lock answer)

/-- The next step of a caller, unless it has to wait or is done. -/
def step? (c : Crowd σ) (i : Nat) : Option (Crowd σ) :=
  match c.callers[i]? with
  | some .arrived =>
    match c.engine.fast.get? c.name with
    | some u => some (c.move i (.done (.ok u)))
    | none => some (c.move i .missed)
  | some .missed => some (c.lookUp i)
  | some .unstored => some (c.takeLock i)
  | some (.queued lock) => if c.isHeld lock then none else some (c.move i (.entered lock))
  | some (.entered lock) =>
    match c.engine.fast.get? c.name with
    | some u => some (c.move i (.leaving lock (.ok u)))
    | none => some (c.move i (.compiling lock))
  | some (.compiling lock) => some (c.finishCompiling i lock)
  | some (.leaving lock answer) => some (c.move i (.released lock answer))
  | some (.released lock answer) => some (c.dropLock i lock answer)
  | some (.parting _ answer) => some (c.move i (.done answer))
  | some (.done _) | none => none

/-- Every caller in turn takes a step if it can. -/
def round (c : Crowd σ) : Crowd σ :=
  (List.range c.callers.length).foldl (fun c i => (c.step? i).getD c) c

/-- The crowd after a number of rounds. -/
def rounds (c : Crowd σ) : Nat → Crowd σ
  | 0 => c
  | n + 1 => c.round.rounds n

/-- The most steps that one caller takes. -/
def longestCourse : Nat := 9

/-- The crowd when all callers are done: in every round before that at least one takes a step. -/
def settle (c : Crowd σ) : Crowd σ := c.rounds (longestCourse * c.callers.length)

/-- The answers given so far, in the order of the callers. -/
def answers (c : Crowd σ) : List Answer := c.callers.filterMap (·.answer?)

end Crowd

end Scriptorium

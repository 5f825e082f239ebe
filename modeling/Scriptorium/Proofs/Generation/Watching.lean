import Scriptorium.Engine.Basic
import Scriptorium.Proofs.Generation.Reading
import Scriptorium.Proofs.Repository.Sharing
import Scriptorium.Proofs.Unit.Loading

/-!
# What a watcher notices

A watcher holds the token of a version that was read before the units of the
current generation were loaded. As long as the repository has this version, the
units are as they are stored, wherever other programs have committed changes in
between. After a reload the watcher holds the token that the reload has read
itself, so what the reload covers is not found again. The order in which a
reload takes the names makes no difference to this.
-/

namespace Scriptorium

namespace Generation

/-- All units of the generation are as they are stored. -/
def Agrees (g : Generation) (entries : Contents) : Prop :=
  ∀ name u, g.cached? name = some u →
    ∃ stored, entries.get? name = some stored ∧ Payload.load name stored.payload = .ok u.body

variable {g : Generation} {entries : Contents}

theorem agrees_fresh (id : Nat) (version : Option VersionToken) (entries : Contents) :
    (fresh id version).Agrees entries := nofun

theorem Agrees.add (h : g.Agrees entries) {u : ReadyUnit} {stored : StoredUnit}
    (hstored : entries.get? u.name = some stored)
    (hload : Payload.load u.name stored.payload = .ok u.body) : (g.add u).Agrees entries := by
  intro name v hv
  by_cases hname : name = u.name
  · subst hname
    rw [cached?_add_self] at hv
    cases hcached : g.cached? u.name with
    | none =>
      rw [hcached] at hv
      cases hv
      exact ⟨stored, hstored, hload⟩
    | some held =>
      rw [hcached] at hv
      cases hv
      exact h u.name held hcached
  · rw [cached?_add_of_ne g hname] at hv
    exact h name v hv

end Generation

namespace GenerationCache

variable {c : GenerationCache SharedRepository} {t : VersionToken}

/-- All units of the current generation are as they are stored now. -/
def Agrees (c : GenerationCache SharedRepository) : Prop :=
  c.current.Agrees c.repository.inner.entries

/-- The number of the version that the next request finds, if it is answered. -/
def nextVersion? (c : GenerationCache SharedRepository) : Option Nat :=
  if c.repository.next.inner.available then some c.repository.next.inner.version else none

theorem version_of_nextVersion? {n : Nat} (h : c.nextVersion? = some n) :
    c.repository.next.inner.version = n := by
  unfold nextVersion? at h
  split at h
  · exact Option.some.inj h
  · cases h

/-- As long as the repository has the version of the token, the units of the current generation are
as they are stored. -/
def Vouched (c : GenerationCache SharedRepository) (t : VersionToken) : Prop :=
  ∃ n, t = .numbered n ∧ n ≤ c.repository.inner.version ∧
    (c.repository.inner.version = n → c.Agrees)

theorem version?_eq (c : GenerationCache SharedRepository) :
    c.version? = (c.nextVersion?.map .numbered, { c with repository := c.repository.next }) := by
  unfold version? nextVersion?
  rw [SharedRepository.call_version]
  cases c.repository.next.inner.available <;> rfl

/-- Loading a unit adds it as the request finds it, or adds nothing. -/
theorem load_cases (c : GenerationCache SharedRepository) (name : QualifiedName) :
    (c.load name).2.repository = c.repository.next ∧
      ((c.load name).2.current = c.current ∨ ∃ u stored, u.name = name ∧
        (c.load name).2.current = c.current.add u ∧
        c.repository.next.inner.entries.get? name = some stored ∧
        Payload.load name stored.payload = .ok u.body) := by
  unfold load payload
  rw [SharedRepository.call_load]
  cases c.repository.next.inner.available with
  | false => exact ⟨rfl, .inl rfl⟩
  | true =>
    cases hstored : c.repository.next.inner.entries.get? name with
    | none => exact ⟨rfl, .inl rfl⟩
    | some stored =>
      cases hload : Payload.load name stored.payload with
      | error fault =>
        simp only [if_true, Option.map_some, hload, true_or, and_self]
      | ok body =>
        simp only [if_true, Option.map_some, hload]
        exact ⟨rfl, .inr ⟨⟨name, body, c.made⟩, stored, rfl, rfl, rfl, hload⟩⟩

/-- A unit that can be read is added to the current generation. -/
theorem load_stored {name : QualifiedName} {stored : StoredUnit} {body : UnitBody}
    (havailable : c.repository.next.inner.available = true)
    (hstored : c.repository.next.inner.entries.get? name = some stored)
    (hload : Payload.load name stored.payload = .ok body) :
    (c.load name).2 = { c with
      repository := c.repository.next
      current := c.current.add ⟨name, body, c.made⟩
      made := c.made + 1 } := by
  unfold load payload
  simp only [SharedRepository.call_load, havailable, hstored, if_true, Option.map_some, hload]
  rfl

namespace Vouched

/-- A token that vouches for the units goes on to do so when the repository is disturbed. -/
theorem disturbed (h : c.Vouched t) {s : SharedRepository}
    (hlater : c.repository.inner.Later s.inner) :
    Vouched { c with repository := s } t := by
  obtain ⟨n, rfl, hn, hagrees⟩ := h
  refine ⟨n, rfl, Nat.le_trans hn hlater.version, fun hsame => ?_⟩
  have hsame : s.inner.version = n := hsame
  have hversion : s.inner.version = c.repository.inner.version :=
    Nat.le_antisymm (hsame ▸ hn) hlater.version
  have hbefore := hagrees (hversion ▸ hsame)
  unfold Agrees at hbefore ⊢
  rwa [hlater.entries hversion]

theorem load (h : c.Vouched t) (name : QualifiedName) : (c.load name).2.Vouched t := by
  obtain ⟨n, rfl, hn, hagrees⟩ := h.disturbed c.repository.later_next
  obtain ⟨hrepository, hcurrent⟩ := c.load_cases name
  refine ⟨n, rfl, hrepository ▸ hn, fun hsame => ?_⟩
  rw [hrepository] at hsame
  have hbefore : c.current.Agrees c.repository.next.inner.entries := hagrees hsame
  unfold Agrees
  rw [hrepository]
  rcases hcurrent with hcurrent | ⟨u, stored, rfl, hcurrent, hstored, hload⟩
  · rwa [hcurrent]
  · rw [hcurrent]
    exact hbefore.add hstored hload

theorem loadAll (h : c.Vouched t) (names : List QualifiedName) : (c.loadAll names).Vouched t := by
  unfold GenerationCache.loadAll
  induction names generalizing c with
  | nil => exact h
  | cons name names ih => exact ih (h.load name)

theorem resolve (h : c.Vouched t) (handle : GenerationHandle) (name : QualifiedName) :
    (c.resolve handle name).2.Vouched t := by
  unfold GenerationCache.resolve resolveCurrent
  split
  · split
    · exact h
    · exact h.load name
  · exact h

/-- A token that has been seen vouches for a generation without units. -/
theorem publish (h : c.Vouched t) (version : Option VersionToken) :
    (c.publish version).Vouched t := by
  obtain ⟨n, rfl, hn, -⟩ := h
  exact ⟨n, rfl, hn, fun _ => Generation.agrees_fresh _ version _⟩

end Vouched

/-- A reload publishes the version that it reads, and units as they are stored under it or later. -/
theorem reloadInOrder_spec (c : GenerationCache SharedRepository) (names : List QualifiedName) :
    (c.reloadInOrder names).current.version = c.nextVersion?.map .numbered ∧
      (∀ t, c.Vouched t → (c.reloadInOrder names).Vouched t) ∧
      ∀ n, c.nextVersion? = some n → (c.reloadInOrder names).Vouched (.numbered n) := by
  have hversion (c : GenerationCache SharedRepository) (names : List QualifiedName) :
      (c.loadAll names).current.version = c.current.version := by
    unfold loadAll
    induction names generalizing c with
    | nil => rfl
    | cons name names ih =>
      obtain ⟨-, hcurrent | ⟨u, stored, -, hcurrent, -⟩⟩ := c.load_cases name <;>
        simp only [List.foldl_cons, ih, hcurrent, Generation.add]
  unfold reloadInOrder
  rw [version?_eq]
  refine ⟨hversion _ _, fun t h => ?_, fun n hn => ?_⟩
  · exact ((h.disturbed c.repository.later_next).publish _).loadAll _
  · have hfresh : Vouched (publish { c with repository := c.repository.next }
        (c.nextVersion?.map .numbered)) (.numbered n) := by
      exact ⟨n, rfl, Nat.le_of_eq (version_of_nextVersion? hn).symm,
        fun _ => Generation.agrees_fresh _ _ _⟩
    exact hfresh.loadAll _

end GenerationCache

namespace Engine

/-- The engine after a disturbance of its repository. -/
def disturb (e : Engine SharedRepository) (d : Disturbance) : Engine SharedRepository :=
  let repository := { e.cache.repository with inner := e.cache.repository.inner.disturb d }
  { e with cache := { e.cache with repository } }

/-- The runs from the creation of a watcher over a cache that agrees with the repository. Changes
of others come at any time, also between two requests of one step, and every reload takes the names
in an order of its own. A run is marked with the number of the version that its latest reload has
read. -/
inductive Watched : Option Nat → Engine SharedRepository → Prop
  | start {e : Engine SharedRepository} (h : e.watch.cache.Agrees) : Watched none e.watch
  | disturb {latest : Option Nat} {e : Engine SharedRepository} (h : Watched latest e)
    (d : Disturbance) : Watched latest (e.disturb d)
  | resolve {latest : Option Nat} {e : Engine SharedRepository} (h : Watched latest e)
    (handle : GenerationHandle) (name : QualifiedName) :
    Watched latest { e with cache := (e.cache.resolve handle name).2 }
  | reload {latest : Option Nat} {e : Engine SharedRepository} {names : List QualifiedName}
    (h : Watched latest e) (hnames : names.Perm e.cache.current.names) :
    Watched e.cache.nextVersion? (e.reloadInOrder names)
  | poll {latest : Option Nat} {e : Engine SharedRepository} {names : List QualifiedName}
    (h : Watched latest e) (hnames : names.Perm e.cache.current.names) :
    Watched (if (e.pollInOrder names).1 = .reloaded then e.cache.version?.2.nextVersion? else latest)
      (e.pollInOrder names).2

/-- The watcher holds a token that vouches for the current generation, or none, and the one that the
latest reload has read, if it has read one. -/
structure Watching (latest : Option Nat) (e : Engine SharedRepository) (w : Watcher) : Prop where
  watcher : e.watcher = some w
  vouched : ∀ t, w.lastSeen = some t → e.cache.Vouched t
  latest : ∀ n, latest = some n → w.lastSeen = some (.numbered n)

variable {latest : Option Nat} {e : Engine SharedRepository} {w : Watcher}

theorem watching_watch (h : e.watch.cache.Agrees) : ∃ w, Watching none e.watch w := by
  have hversion := e.cache.version?_eq
  refine ⟨(Watcher.start e.cache).1, rfl, fun t ht => ?_, nofun⟩
  have hcache : e.watch.cache = { e.cache with repository := e.cache.repository.next } :=
    congrArg Prod.snd hversion
  have hread : e.cache.nextVersion?.map .numbered = some t := by
    rw [← ht, Watcher.start, hversion]
  obtain ⟨n, hn, rfl⟩ := Option.map_eq_some_iff.mp hread
  have hnow : e.watch.cache.repository.inner.version = n :=
    hcache ▸ GenerationCache.version_of_nextVersion? hn
  exact ⟨n, rfl, Nat.le_of_eq hnow.symm, fun _ => h⟩

/-- A step that neither publishes a generation nor tells the watcher anything. -/
theorem Watching.kept {e' : Engine SharedRepository} (h : Watching latest e w)
    (hwatcher : e'.watcher = e.watcher) (hvouched : ∀ t, e.cache.Vouched t → e'.cache.Vouched t) :
    Watching latest e' w :=
  ⟨hwatcher.trans h.watcher, fun t ht => hvouched t (h.vouched t ht), h.latest⟩

/-- A reload tells the watcher the version that it has read. -/
theorem Watching.afterReload (h : Watching latest e w) {c : GenerationCache SharedRepository}
    (hvouched : ∀ t, e.cache.Vouched t → c.Vouched t) (names : List QualifiedName) :
    Watching c.nextVersion? (e.afterReload (c.reloadInOrder names))
      (w.afterReload (c.reloadInOrder names).current) := by
  obtain ⟨hversion, hkept, hread⟩ := c.reloadInOrder_spec names
  refine ⟨by rw [Engine.afterReload, h.watcher]; rfl, fun t ht => ?_, fun n hn => ?_⟩
  · simp only [Watcher.afterReload, hversion] at ht
    cases hnext : c.nextVersion? with
    | none =>
      rw [hnext] at ht
      exact hkept t (hvouched t (h.vouched t ht))
    | some n =>
      rw [hnext] at ht
      cases ht
      exact hread n hnext
  · simp only [Watcher.afterReload, hversion, hn]
    rfl

/-- What a poll finds, and what comes of it. -/
theorem pollInOrder_eq (h : e.watcher = some w) (names : List QualifiedName) :
    (e.pollInOrder names).1 = w.compare (e.cache.nextVersion?.map .numbered) ∧
      (e.pollInOrder names).2 = if (e.pollInOrder names).1 = .reloaded then
          e.afterReload (e.cache.version?.2.reloadInOrder names)
        else { e with cache := e.cache.version?.2 } := by
  have hversion := congrArg Prod.fst e.cache.version?_eq
  unfold pollInOrder pollWithInOrder Watcher.pollInOrder
  simp only [h]
  cases hread : e.cache.version? with
  | mk version c =>
    rw [hread] at hversion
    obtain rfl : version = e.cache.nextVersion?.map .numbered := hversion
    dsimp only
    split <;> next hc => simp [hc]

theorem watching_of_watched (h : Watched latest e) : ∃ w, Watching latest e w := by
  induction h with
  | start hagrees => exact watching_watch hagrees
  | @disturb latest e _ d ih =>
    obtain ⟨w, hw⟩ := ih
    exact ⟨w, hw.kept rfl fun t ht => ht.disturbed (e.cache.repository.inner.later_disturb d)⟩
  | resolve _ handle name ih =>
    obtain ⟨w, hw⟩ := ih
    exact ⟨w, hw.kept rfl fun t ht => ht.resolve handle name⟩
  | reload _ _ ih =>
    obtain ⟨w, hw⟩ := ih
    exact ⟨_, hw.afterReload (fun t ht => ht) _⟩
  | @poll latest e names _ _ ih =>
    obtain ⟨w, hw⟩ := ih
    have hread (t : VersionToken) (ht : e.cache.Vouched t) : e.cache.version?.2.Vouched t := by
      rw [GenerationCache.version?_eq]
      exact ht.disturbed e.cache.repository.later_next
    obtain ⟨-, hpoll⟩ := pollInOrder_eq hw.watcher names
    rw [hpoll]
    split
    · exact ⟨_, hw.afterReload hread names⟩
    · exact ⟨w, hw.kept rfl hread⟩

/-- A watcher loses no change and repeats no reload, in whatever order the names are loaded: a poll
that finds nothing new leaves units that are all as they are stored, and a poll finds nothing new
when nothing has been committed since the latest reload has read the version. -/
theorem poll_exact (h : Watched latest e) (names : List QualifiedName) :
    ((e.pollInOrder names).1 = .unchanged → (e.pollInOrder names).2.cache.Agrees) ∧
    ∀ n, latest = some n → e.cache.nextVersion? = some n →
      (e.pollInOrder names).1 = .unchanged ∧
        (e.pollInOrder names).2.cache.current = e.cache.current ∧
        (e.pollInOrder names).2.cache.past = e.cache.past := by
  obtain ⟨w, hw⟩ := watching_of_watched h
  obtain ⟨houtcome, hpoll⟩ := pollInOrder_eq hw.watcher names
  refine ⟨fun hunchanged => ?_, fun n hn hnext => ?_⟩
  · have hseen : ∃ n, e.cache.nextVersion? = some n ∧ w.lastSeen = some (.numbered n) := by
      rw [houtcome] at hunchanged
      cases hnext : e.cache.nextVersion? with
      | none =>
        rw [hnext] at hunchanged
        cases hunchanged
      | some n =>
        rw [hnext, Option.map_some, Watcher.compare] at hunchanged
        split at hunchanged
        · next hsame => exact ⟨n, rfl, hsame⟩
        · cases hunchanged
    obtain ⟨n, hnext, hlast⟩ := hseen
    obtain ⟨m, hm, -, hagrees⟩ := (hw.vouched _ hlast).disturbed e.cache.repository.later_next
    obtain rfl := VersionToken.numbered_inj hm
    rw [hpoll, hunchanged, if_neg nofun, GenerationCache.version?_eq]
    exact hagrees (GenerationCache.version_of_nextVersion? hnext)
  · have hunchanged : (e.pollInOrder names).1 = .unchanged := by
      rw [houtcome, hnext, Option.map_some, Watcher.compare, if_pos (hw.latest n hn)]
    rw [hpoll, hunchanged, if_neg nofun, GenerationCache.version?_eq]
    exact ⟨rfl, rfl, rfl⟩

/-- A poll that finds another version reloads. -/
theorem Watched.poll_moved (h : Watched latest e) (hw : e.watcher = some w) {n : Nat}
    (hnext : e.cache.nextVersion? = some n) (hmoved : w.lastSeen ≠ some (.numbered n)) :
    Watched e.cache.version?.2.nextVersion? (e.afterReload e.cache.version?.2.reload) := by
  obtain ⟨houtcome, hpoll⟩ := pollInOrder_eq hw e.cache.current.names
  have hreloaded : (e.pollInOrder e.cache.current.names).1 = .reloaded := by
    rw [houtcome, hnext, Option.map_some, Watcher.compare, if_neg hmoved]
  have hpolled := h.poll (.refl e.cache.current.names)
  rwa [hpoll, hreloaded, if_pos rfl, if_pos rfl] at hpolled

/-- A repository with one unit. -/
def holding (name : QualifiedName) (payload : String) : Contents :=
  (∅ : Contents).insert name ⟨payload, none⟩

/-- Others replace the payload of the only unit after a reload has read the version and before it
loads the unit. -/
def racing (name : QualifiedName) (before after : String) : Engine SharedRepository :=
  .ofRepository
    ⟨⟨holding name before, 0, none, true⟩, [[], [], [], [.commit (holding name after)]]⟩ 0

/-- The watcher is created, the unit is resolved, and the reload is followed by a poll, which finds
that the version has moved. -/
theorem watched_racing {name : QualifiedName} {before after : String} {old new : UnitBody}
    (hold : Payload.load name before = .ok old) (hnew : Payload.load name after = .ok new) :
    ∃ e u, Watched (some 1) e ∧ e.cache.nextVersion? = some 1 ∧
      e.cache.current.cached? name = some u ∧ u.body = new := by
  have hstored (payload : String) : (holding name payload).get? name = some ⟨payload, none⟩ :=
    Dictionary.get?_insert_self _ name _
  have hresolved := (Watched.start (e := racing name before after)
    (Generation.agrees_fresh _ _ _)).resolve ⟨0, 1⟩ name
  have hload : ((racing name before after).watch.cache.resolve ⟨0, 1⟩ name).2 =
      ⟨0, ⟨⟨holding name before, 0, none, true⟩, [[], [.commit (holding name after)]]⟩,
        (Generation.fresh 1 none).add ⟨name, old, 0⟩, [], 1⟩ :=
    GenerationCache.load_stored (c := (racing name before after).watch.cache) rfl
      (hstored before) hold
  rw [hload] at hresolved
  have hreload : GenerationCache.reload
      (⟨0, ⟨⟨holding name before, 0, none, true⟩, [[], [.commit (holding name after)]]⟩,
        (Generation.fresh 1 none).add ⟨name, old, 0⟩, [], 1⟩ : GenerationCache SharedRepository) =
      ⟨0, ⟨⟨holding name after, 1, none, true⟩, []⟩,
        (Generation.fresh 2 (some (.numbered 0))).add ⟨name, new, 1⟩,
        [(Generation.fresh 1 none).add ⟨name, old, 0⟩], 2⟩ :=
    GenerationCache.load_stored
      (c := ⟨0, ⟨⟨holding name before, 0, none, true⟩, [[.commit (holding name after)]]⟩,
        .fresh 2 (some (.numbered 0)), [(Generation.fresh 1 none).add ⟨name, old, 0⟩], 1⟩)
      rfl (hstored after) hnew
  have hreloaded := hresolved.reload (.refl _)
  rw [Engine.reloadInOrder] at hreloaded
  change Watched _ (Engine.afterReload _ (GenerationCache.reload _)) at hreloaded
  rw [hreload] at hreloaded
  have hmoved : some (VersionToken.numbered 0) ≠ some (.numbered 1) := fun h =>
    nomatch VersionToken.numbered_inj (Option.some.inj h)
  have hpolled := hreloaded.poll_moved (w := ⟨some (.numbered 0)⟩) (n := 1) rfl rfl hmoved
  have hrepeated : GenerationCache.reload
      (⟨0, ⟨⟨holding name after, 1, none, true⟩, []⟩,
        (Generation.fresh 2 (some (.numbered 0))).add ⟨name, new, 1⟩,
        [(Generation.fresh 1 none).add ⟨name, old, 0⟩], 2⟩ : GenerationCache SharedRepository) =
      ⟨0, ⟨⟨holding name after, 1, none, true⟩, []⟩,
        (Generation.fresh 3 (some (.numbered 1))).add ⟨name, new, 2⟩,
        [(Generation.fresh 2 (some (.numbered 0))).add ⟨name, new, 1⟩,
          (Generation.fresh 1 none).add ⟨name, old, 0⟩], 3⟩ :=
    GenerationCache.load_stored
      (c := ⟨0, ⟨⟨holding name after, 1, none, true⟩, []⟩, .fresh 3 (some (.numbered 1)),
        [(Generation.fresh 2 (some (.numbered 0))).add ⟨name, new, 1⟩,
          (Generation.fresh 1 none).add ⟨name, old, 0⟩], 2⟩)
      rfl (hstored after) hnew
  rw [GenerationCache.version?_eq] at hpolled
  refine ⟨_, ⟨name, new, 2⟩, hpolled, ?_, ?_, rfl⟩
  · exact congrArg GenerationCache.nextVersion? hrepeated
  · have hcurrent := congrArg GenerationCache.current hrepeated
    refine (congrArg (Generation.cached? · name) hcurrent).trans ?_
    exact Generation.cached?_add_self _ (⟨name, new, 2⟩ : ReadyUnit)

/-- An expression that is an integer. -/
def integer (n : Int64) : UnitBody := .expression ⟨.primitive .integer, .literal (.integer n)⟩

/-- The commit in the middle of the reload is found by the poll after it, and not again. -/
theorem poll_exact_racing :
    ∃ e u, Watched (some 1) e ∧ e.cache.nextVersion? = some 1 ∧
      e.cache.current.cached? ((QualifiedName.script "Calc").expression "$1") = some u ∧
      e.poll.1 = .unchanged ∧ e.poll.2.cache.current = e.cache.current ∧ e.poll.2.cache.Agrees := by
  have hload (n : Int64)
      (h : (integer n).loads ((QualifiedName.script "Calc").expression "$1") = true) :
      ∃ body, Payload.load ((QualifiedName.script "Calc").expression "$1")
        (Payload.encode (integer n)) = .ok body := by
    obtain ⟨body, hbody⟩ := (@CompiledUnit.load_iff _ _ none none).mpr h
    exact ⟨body, CompiledUnit.load_ofBody_eq_ok.mp hbody⟩
  obtain ⟨old, hold⟩ := hload 1 (by decide +kernel)
  obtain ⟨new, hnew⟩ := hload 2 (by decide +kernel)
  obtain ⟨e, u, hwatched, hnext, hcached, -⟩ := watched_racing hold hnew
  obtain ⟨hsafe, hexact⟩ := poll_exact hwatched e.cache.current.names
  obtain ⟨hunchanged, hcurrent, -⟩ := hexact 1 rfl hnext
  exact ⟨e, u, hwatched, hnext, hcached, hunchanged, hcurrent, hsafe hunchanged⟩

end Engine

end Scriptorium

import Scriptorium.Proofs.Generation.Watching

/-!
# The succession of generations

A cache goes from one generation to the next with every reload, and whatever
happens in between only adds units to the current generation. Nothing is
assumed of the repository: its contents may be another at every request, so a
reload may find one name as it was and the next one changed. Nor is anything
assumed of the order in which a reload takes the names.
-/

namespace Scriptorium

namespace Dictionary

variable {κ : Type u} {α : Type v} [Ord κ]

theorem nodup_keys [Std.ReflOrd κ] (d : Dictionary κ α) : d.keys.Nodup := by
  rw [keys, List.Nodup, List.pairwise_map]
  refine d.sorted.imp fun hlt heq => ?_
  rw [heq, Std.ReflOrd.compare_self] at hlt
  cases hlt

end Dictionary

/-- The generation is the other one with further units. -/
structure Generation.Grows (g g' : Generation) : Prop where
  id : g'.id = g.id
  kept : ∀ name u, g.cached? name = some u → g'.cached? name = some u

namespace Generation.Grows

theorem refl (g : Generation) : Grows g g := ⟨rfl, fun _ _ h => h⟩

theorem trans {g g' g'' : Generation} (h : Grows g g') (k : Grows g' g'') : Grows g g'' :=
  ⟨k.id.trans h.id, fun name u hu => k.kept name u (h.kept name u hu)⟩

theorem add (g : Generation) (u : ReadyUnit) : Grows g (g.add u) := by
  refine ⟨rfl, fun name v hv => ?_⟩
  by_cases hname : name = u.name
  · subst hname
    rw [cached?_add_self, hv, Option.getD_some]
  · rwa [cached?_add_of_ne g hname]

end Generation.Grows

namespace GenerationCache

variable {σ : Type}

/-- The generations of the cache, the latest first. -/
def generations (c : GenerationCache σ) : List Generation := c.current :: c.past

/-- Every generation has a greater number than those before it. -/
def Ordered (c : GenerationCache σ) : Prop := c.generations.Pairwise fun g g' => g'.id < g.id

/-- A handle of the cache refers to the generation with its number. -/
theorem generation?_eq_some {c : GenerationCache σ} (hordered : c.Ordered) {handle : GenerationHandle}
    {g : Generation} :
    c.generation? handle = some g ↔
      handle.cache = c.id ∧ g ∈ c.generations ∧ g.id = handle.generation := by
  have hunique {gs : List Generation} (h : gs.Pairwise fun g g' => g'.id < g.id) (hg : g ∈ gs) :
      gs.find? (fun g' => g'.id = g.id) = some g := by
    induction gs with
    | nil => cases hg
    | cons latest gs ih =>
      obtain ⟨hlatest, hrest⟩ := List.pairwise_cons.mp h
      rcases List.mem_cons.mp hg with rfl | hg
      · simp
      · have hne : latest.id ≠ g.id := Nat.ne_of_gt (hlatest g hg)
        simpa [hne] using ih hrest hg
  unfold generation?
  constructor
  · intro h
    split at h
    · next hcache =>
      exact ⟨hcache, List.mem_of_find?_eq_some h, by simpa using List.find?_some h⟩
    · cases h
  · rintro ⟨hcache, hg, hid⟩
    rw [if_pos hcache, ← hid]
    exact hunique hordered hg

/-- The cache has gone on to so many further generations. -/
structure Follows (c : GenerationCache σ) (n : Nat) (c' : GenerationCache σ) : Prop where
  id : c'.id = c.id
  current : c'.current.id = c.current.id + n
  ordered : c.Ordered → c'.Ordered
  kept : ∃ newer g, c'.generations = newer ++ g :: c.past ∧ c.current.Grows g

namespace Follows

variable {c c' c'' : GenerationCache σ} {m n : Nat}

/-- The current generation has grown. -/
theorem of_grows (hid : c'.id = c.id) (hpast : c'.past = c.past)
    (hcurrent : c.current.Grows c'.current) : c.Follows 0 c' where
  id := hid
  current := hcurrent.id
  ordered h := by
    obtain ⟨hlatest, hrest⟩ := List.pairwise_cons.mp h
    rw [Ordered, generations, hpast]
    exact List.pairwise_cons.mpr ⟨fun g hg => hcurrent.id ▸ hlatest g hg, hrest⟩
  kept := ⟨[], c'.current, by rw [generations, hpast]; rfl, hcurrent⟩

theorem refl (c : GenerationCache σ) : c.Follows 0 c := of_grows rfl rfl (.refl _)

theorem edit (c : GenerationCache σ) (repository : σ) : c.Follows 0 { c with repository } :=
  of_grows rfl rfl (.refl _)

theorem trans (h : c.Follows m c') (k : c'.Follows n c'') : c.Follows (m + n) c'' where
  id := k.id.trans h.id
  current := by rw [k.current, h.current, Nat.add_assoc]
  ordered hc := k.ordered (h.ordered hc)
  kept := by
    obtain ⟨newer, g, hgenerations, hgrows⟩ := h.kept
    obtain ⟨newer', g', hgenerations', hgrows'⟩ := k.kept
    -- The generation that was current in between is the head of the generations then.
    cases newer with
    | nil =>
      obtain ⟨rfl, hpast⟩ := List.cons.inj hgenerations
      exact ⟨newer', g', by rw [hgenerations', hpast], hgrows.trans hgrows'⟩
    | cons latest newer =>
      obtain ⟨-, hpast⟩ := List.cons.inj hgenerations
      exact ⟨newer' ++ g' :: newer, g, by simp [hgenerations', hpast], hgrows⟩

theorem publish (c : GenerationCache σ) (version : Option VersionToken) :
    c.Follows 1 (c.publish version) where
  id := rfl
  current := rfl
  ordered h := by
    refine List.pairwise_cons.mpr ⟨fun g hg => ?_, h⟩
    rcases List.mem_cons.mp hg with rfl | hg
    · exact Nat.lt_succ_self _
    · exact Nat.lt_succ_of_lt ((List.pairwise_cons.mp h).1 g hg)
  kept := ⟨[.fresh (c.current.id + 1) version], c.current, rfl, .refl _⟩

/-- A generation that is referred to has grown and is referred to by the same handle. -/
theorem generation? (h : c.Follows n c') (hordered : c.Ordered) {handle : GenerationHandle}
    {g : Generation} (hg : c.generation? handle = some g) :
    ∃ g', c'.generation? handle = some g' ∧ g.Grows g' := by
  obtain ⟨hcache, hmem, hid⟩ := (generation?_eq_some hordered).mp hg
  obtain ⟨newer, grown, hgenerations, hgrows⟩ := h.kept
  have hfound {g' : Generation} (hmem' : g' ∈ grown :: c.past) (hid' : g'.id = handle.generation) :
      c'.generation? handle = some g' := by
    refine (generation?_eq_some (h.ordered hordered)).mpr ⟨hcache.trans h.id.symm, ?_, hid'⟩
    rw [hgenerations]
    exact List.mem_append_right _ hmem'
  rcases List.mem_cons.mp hmem with rfl | hpast
  · exact ⟨grown, hfound List.mem_cons_self (hgrows.id.trans hid), hgrows⟩
  · exact ⟨g, hfound (List.mem_cons_of_mem _ hpast) hid, .refl g⟩

end Follows

section Loading

variable [CodeRepository σ] {c : GenerationCache σ} {name : QualifiedName}

theorem payload_asked (c : GenerationCache σ) (name : QualifiedName) :
    (c.payload name).2 = { c with repository := (c.payload name).2.repository } := by
  unfold payload
  split <;> rfl

/-- A unit that cannot be read leaves the generation as it is. -/
theorem load_unread {cause : ResolveError} (h : c.read name = .error cause) :
    (c.load name).2 = (c.payload name).2 := by
  unfold read at h
  unfold load
  rcases hpayload : c.payload name with ⟨_ | payload, c'⟩
  · rfl
  · rw [hpayload] at h
    dsimp only at h ⊢
    cases hload : Payload.load name payload with
    | error fault => rfl
    | ok body =>
      rw [hload] at h
      cases h

/-- A unit that is read is added to the current generation. -/
theorem load_read {body : UnitBody} (h : c.read name = .ok body) :
    (c.load name).2 = { (c.payload name).2 with
      current := c.current.add ⟨name, body, c.made⟩
      made := c.made + 1 } := by
  have hasked := c.payload_asked name
  unfold read at h
  unfold load
  rcases hpayload : c.payload name with ⟨_ | payload, c'⟩
  · rw [hpayload] at h
    cases h
  · rw [hpayload] at h hasked
    dsimp only at h hasked ⊢
    cases hload : Payload.load name payload with
    | error fault =>
      rw [hload] at h
      cases h
    | ok body' =>
      rw [hload] at h
      cases h
      rw [hasked]
      rfl

theorem follows_load (c : GenerationCache σ) (name : QualifiedName) :
    c.Follows 0 (c.load name).2 := by
  have hasked := c.payload_asked name
  cases hread : c.read name with
  | error cause =>
    rw [load_unread hread, hasked]
    exact .of_grows rfl rfl (.refl _)
  | ok body =>
    rw [load_read hread, hasked]
    exact .of_grows rfl rfl (.add _ _)

theorem follows_loadAll (c : GenerationCache σ) (names : List QualifiedName) :
    c.Follows 0 (c.loadAll names) := by
  unfold loadAll
  induction names generalizing c with
  | nil => exact .refl c
  | cons name names ih => exact (c.follows_load name).trans (ih _)

theorem follows_resolveCurrent (c : GenerationCache σ) (name : QualifiedName) :
    c.Follows 0 (c.resolveCurrent name).2 := by
  unfold resolveCurrent
  split
  · exact .refl c
  · exact c.follows_load name

/-- Only through the handle of the current generation anything is resolved. -/
theorem resolve_obsolete {handle : GenerationHandle} (h : handle ≠ c.handle) (name : QualifiedName) :
    c.resolve handle name = (.error (.obsoleteGeneration handle.generation c.current.id), c) :=
  if_neg h

theorem follows_resolve (c : GenerationCache σ) (handle : GenerationHandle) (name : QualifiedName) :
    c.Follows 0 (c.resolve handle name).2 := by
  by_cases hhandle : handle = c.handle
  · rw [resolve, if_pos hhandle]
    exact c.follows_resolveCurrent name
  · rw [resolve_obsolete hhandle]
    exact .refl c

theorem follows_reloadInOrder (c : GenerationCache σ) (names : List QualifiedName) :
    c.Follows 1 (c.reloadInOrder names) := by
  have hasked : c.Follows 0 c.version?.2 := .of_grows rfl rfl (.refl _)
  exact (hasked.trans (.publish _ _)).trans (follows_loadAll _ _)

/-- What is read under several names, one after the other. -/
def readings (c : GenerationCache σ) :
    List QualifiedName → List (QualifiedName × Except ResolveError UnitBody)
  | [] => []
  | name :: names => (name, c.read name) :: (c.payload name).2.readings names

theorem names_readings (c : GenerationCache σ) (names : List QualifiedName) :
    (c.readings names).map (·.1) = names := by
  induction names generalizing c with
  | nil => rfl
  | cons name names ih => rw [readings, List.map_cons, ih]

/-- What is read depends on the repository alone. -/
theorem readings_congr {c c' : GenerationCache σ} (h : c'.repository = c.repository)
    (names : List QualifiedName) : c'.readings names = c.readings names := by
  induction names generalizing c c' with
  | nil => rfl
  | cons name names ih =>
    have hrepository : (c'.payload name).2.repository = (c.payload name).2.repository := by
      unfold payload
      rw [h]
      rcases CodeRepository.call (.load name) c.repository with ⟨_ | _ | _, s⟩ <;> rfl
    rw [readings, readings, read_congr h, ih hrepository]

theorem repository_load (c : GenerationCache σ) (name : QualifiedName) :
    (c.load name).2.repository = (c.payload name).2.repository := by
  cases hread : c.read name with
  | error cause => rw [load_unread hread]
  | ok body => rw [load_read hread]

theorem cached?_load_of_ne {other : QualifiedName} (h : other ≠ name) :
    (c.load name).2.current.cached? other = c.current.cached? other := by
  cases hread : c.read name with
  | error cause => rw [load_unread hread, payload_asked]
  | ok body =>
    rw [load_read hread]
    exact Generation.cached?_add_of_ne _ h

/-- Names that are not held yet are held with what is read under them, if it can be read. -/
theorem cached?_loadAll {names : List QualifiedName} (hnodup : names.Nodup)
    (hmissing : ∀ n ∈ names, c.current.cached? n = none) (name : QualifiedName) (body : UnitBody) :
    (∃ u, (c.loadAll names).current.cached? name = some u ∧ u.body = body) ↔
      (∃ u, c.current.cached? name = some u ∧ u.body = body) ∨
        (name, .ok body) ∈ c.readings names := by
  induction names generalizing c with
  | nil => simp [loadAll, readings]
  | cons n names ih =>
    obtain ⟨hn, hnodup⟩ := List.nodup_cons.mp hnodup
    have hrest : ∀ m ∈ names, (c.load n).2.current.cached? m = none := by
      intro m hm
      have hne : m ≠ n := ne_of_mem_of_not_mem hm hn
      rw [cached?_load_of_ne hne]
      exact hmissing m (List.mem_cons_of_mem _ hm)
    have hloaded : (∃ u, (c.load n).2.current.cached? name = some u ∧ u.body = body) ↔
        (∃ u, c.current.cached? name = some u ∧ u.body = body) ∨
          (name, .ok body) = (n, c.read n) := by
      by_cases hname : name = n
      · subst hname
        have hnone := hmissing name List.mem_cons_self
        cases hread : c.read name with
        | error cause =>
          rw [load_unread hread, payload_asked, hnone]
          simp
        | ok body' =>
          have hself := Generation.cached?_add_self c.current ⟨name, body', c.made⟩
          rw [load_read hread, hself, hnone]
          simp [eq_comm]
      · rw [cached?_load_of_ne hname]
        simp [hname]
    change (∃ u, ((c.load n).2.loadAll names).current.cached? name = some u ∧ u.body = body) ↔ _
    rw [ih hnodup hrest, hloaded, readings, List.mem_cons, or_assoc,
      readings_congr (c.repository_load n)]

theorem past_loadAll (c : GenerationCache σ) (names : List QualifiedName) :
    (c.loadAll names).past = c.past := by
  have hload (c : GenerationCache σ) (name : QualifiedName) : (c.load name).2.past = c.past := by
    cases hread : c.read name with
    | error cause => rw [load_unread hread, payload_asked]
    | ok body =>
      rw [load_read hread, payload_asked]
  unfold loadAll
  induction names generalizing c with
  | nil => rfl
  | cons name names ih => rw [List.foldl_cons, ih, hload]

theorem past_reloadInOrder (c : GenerationCache σ) (names : List QualifiedName) :
    (c.reloadInOrder names).past = c.generations := past_loadAll _ _

/-- Names that are all different are held with what a reload has read under them. -/
theorem cached?_reloadInOrder (c : GenerationCache σ) {names : List QualifiedName}
    (hnodup : names.Nodup) (name : QualifiedName) (body : UnitBody) :
    (∃ u, (c.reloadInOrder names).current.cached? name = some u ∧ u.body = body) ↔
      (name, .ok body) ∈ c.version?.2.readings names := by
  have hnone (n : QualifiedName) :
      (c.version?.2.publish c.version?.1).current.cached? n = none := rfl
  have hrepository :
      (c.version?.2.publish c.version?.1).repository = c.version?.2.repository := rfl
  rw [← readings_congr hrepository]
  refine (cached?_loadAll hnodup (fun n _ => hnone n) name body).trans ?_
  apply or_iff_right
  rintro ⟨u, hu, -⟩
  rw [hnone] at hu
  cases hu

end Loading

/-- The second cache may have come from the first, after so many reloads. Between two steps the
repository may become any other one, and every reload takes the names in an order of its own. -/
inductive History [CodeRepository σ] (c : GenerationCache σ) : Nat → GenerationCache σ → Prop
  | refl : History c 0 c
  | edit {n : Nat} {c' : GenerationCache σ} (h : History c n c') (repository : σ) :
    History c n { c' with repository }
  | resolve {n : Nat} {c' : GenerationCache σ} (h : History c n c') (handle : GenerationHandle)
    (name : QualifiedName) : History c n (c'.resolve handle name).2
  | resolveCurrent {n : Nat} {c' : GenerationCache σ} (h : History c n c') (name : QualifiedName) :
    History c n (c'.resolveCurrent name).2
  | reload {n : Nat} {c' : GenerationCache σ} {names : List QualifiedName} (h : History c n c')
    (hnames : names.Perm c'.current.names) : History c (n + 1) (c'.reloadInOrder names)

section Histories

variable [CodeRepository σ] {c c' : GenerationCache σ} {n : Nat}

theorem History.follows (h : History c n c') : c.Follows n c' := by
  induction h with
  | refl => exact .refl c
  | edit _ repository ih => exact ih.trans (.edit _ repository)
  | resolve _ handle name ih => exact ih.trans (follows_resolve _ handle name)
  | resolveCurrent _ name ih => exact ih.trans (follows_resolveCurrent _ name)
  | reload _ _ ih => exact ih.trans (follows_reloadInOrder _ _)

/-- Every reload begins a generation with a greater number. A handle obtained at some moment is that
of the current generation as long as no reload has followed, and through any other handle nothing is
resolved and nothing changes. A unit that a generation holds it holds for ever. A reload leaves the
generations before as they are, and the new one holds what it has read under the names of the last
one, in whatever order they were taken, as far as that could be read. -/
theorem generations_succeed {repository : σ} {id m : Nat}
    (hbefore : History (ofRepository repository id) m c) (hafter : History c n c') :
    (c'.current.id = c.current.id + n ∧ c'.generations.Pairwise fun g g' => g'.id < g.id) ∧
    (c.handle = c'.handle ↔ n = 0) ∧
    (∀ handle name, handle ≠ c'.handle → c'.resolve handle name =
      (.error (.obsoleteGeneration handle.generation c'.current.id), c')) ∧
    (∀ handle g name u, c.generation? handle = some g → g.cached? name = some u →
      ∃ g', c'.generation? handle = some g' ∧ g'.cached? name = some u) ∧
    ∀ names : List QualifiedName, names.Perm c'.current.names →
      (c'.reloadInOrder names).past = c'.generations ∧
      (c'.version?.2.readings names).map (·.1) = names ∧
      ∀ name body,
        (∃ u, (c'.reloadInOrder names).current.cached? name = some u ∧ u.body = body) ↔
          (name, .ok body) ∈ c'.version?.2.readings names := by
  have hordered : c.Ordered := hbefore.follows.ordered (List.pairwise_singleton _ _)
  have hfollows := hafter.follows
  refine ⟨⟨hfollows.current, hfollows.ordered hordered⟩, ?_, fun handle name h =>
    resolve_obsolete h name, fun handle g name u hg hu => ?_, fun names hnames =>
    ⟨past_reloadInOrder c' names, names_readings _ _, cached?_reloadInOrder c' ?_⟩⟩
  · simp only [handle, hfollows.id, hfollows.current, GenerationHandle.mk.injEq, true_and]
    omega
  · obtain ⟨g', hg', hgrows⟩ := hfollows.generation? hordered hg
    exact ⟨g', hg', hgrows.kept name u hu⟩
  · exact hnames.nodup_iff.mpr c'.current.units.nodup_keys

end Histories

theorem read_stored {c : GenerationCache SharedRepository} {name : QualifiedName}
    {stored : StoredUnit} {body : UnitBody}
    (havailable : c.repository.next.inner.available = true)
    (hstored : c.repository.next.inner.entries.get? name = some stored)
    (hload : Payload.load name stored.payload = .ok body) : c.read name = .ok body := by
  unfold read payload
  simp only [SharedRepository.call_load, havailable, hstored, if_true, Option.map_some, hload]
  rfl

theorem get?_holding (name : QualifiedName) (payload : String) :
    (Engine.holding name payload).get? name = some ⟨payload, none⟩ :=
  Dictionary.get?_insert_self _ name _

/-- The cache after the first load of the one unit, which is replaced right before the second. -/
theorem exists_replacing {name : QualifiedName} {before after : String} {old new : UnitBody}
    (hold : Payload.load name before = .ok old) (hnew : Payload.load name after = .ok new) :
    ∃ c : GenerationCache SharedRepository,
      (∃ repository, History (ofRepository repository 0) 0 c) ∧ c.current.id = 1 ∧
      c.current.cached? name = some ⟨name, old, 0⟩ ∧
      (name, .ok new) ∈ c.version?.2.readings c.current.names := by
  let c : GenerationCache SharedRepository := ofRepository
    ⟨⟨Engine.holding name before, 0, none, true⟩, [[], [], [.commit (Engine.holding name after)]]⟩ 0
  have hresolved : (c.resolveCurrent name).2 = { c with
      repository := c.repository.next
      current := c.current.add ⟨name, old, 0⟩
      made := 1 } := load_stored rfl (get?_holding name before) hold
  have hhistory : History c 0 (c.resolveCurrent name).2 := .resolveCurrent .refl name
  refine ⟨(c.resolveCurrent name).2, ⟨_, hhistory⟩, ?_⟩
  rw [hresolved]
  refine ⟨rfl, Generation.cached?_add_self c.current ⟨name, old, 0⟩, ?_⟩
  have hread : (GenerationCache.version? { c with
      repository := c.repository.next
      current := c.current.add ⟨name, old, 0⟩
      made := 1 }).2.read name = .ok new := read_stored rfl (get?_holding name after) hnew
  exact List.mem_cons.mpr (.inl (congrArg (Prod.mk name) hread.symm))

/-- While a reload goes on, somebody else replaces the only unit before it is loaded. The new
generation holds the new unit and the one before still holds the old one. -/
theorem generations_succeed_replaced :
    ∃ c c' : GenerationCache SharedRepository, ∃ name u g,
      (∃ repository, History (ofRepository repository 0) 0 c) ∧ History c 1 c' ∧
      c.current.cached? name = some u ∧ u.body = Engine.integer 1 ∧
      (∃ u', c'.current.cached? name = some u' ∧ u'.body = Engine.integer 2) ∧
      c'.resolve c.handle name = (.error (.obsoleteGeneration 1 2), c') ∧
      c'.generation? c.handle = some g ∧ g.cached? name = some u := by
  have hload (n : Int64) (h : (Engine.integer n).loads
        ((QualifiedName.script "Calc").expression "$1") = true) :
      Payload.load ((QualifiedName.script "Calc").expression "$1")
        (Payload.encode (Engine.integer n)) = .ok (Engine.integer n) := by
    obtain ⟨body, hbody⟩ := (@CompiledUnit.load_iff _ _ none none).mpr h
    have hloaded := CompiledUnit.load_ofBody_eq_ok.mp hbody
    have hreadable : (Engine.integer n).Readable := trivial
    rwa [Payload.load_encode hreadable hloaded] at hloaded
  obtain ⟨c, ⟨repository, hbefore⟩, hone, hcached, hread⟩ :=
    exists_replacing (hload 1 (by decide +kernel)) (hload 2 (by decide +kernel))
  have hafter : History c 1 c.reload := .reload .refl (.refl _)
  obtain ⟨-, -, -, -, hreloads⟩ := generations_succeed hbefore .refl
  obtain ⟨-, -, hloaded⟩ := hreloads c.current.names (.refl _)
  obtain ⟨⟨hid, -⟩, hhandle, hobsolete, hkept, -⟩ := generations_succeed hbefore hafter
  obtain ⟨g, hg, hkeptu⟩ := hkept c.handle c.current _ _ (by simp [generation?, handle]) hcached
  refine ⟨c, c.reload, _, _, g, ⟨_, hbefore⟩, hafter, hcached, rfl, (hloaded _ _).mpr hread, ?_,
    hg, hkeptu⟩
  rw [hobsolete _ _ fun h => Nat.one_ne_zero (hhandle.mp h), hid]
  simp only [handle, hone]

end GenerationCache

end Scriptorium

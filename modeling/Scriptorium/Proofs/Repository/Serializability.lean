import Scriptorium.Proofs.Repository.Sharing
import Scriptorium.Proofs.Repository.Threads

/-!
# Transactions of threads are serializable

Which changes stand is told by the completed calls alone: those that a thread
makes outside of a transaction, and those in a transaction that it commits
later on. Whenever no transaction is open the repository holds the changes that
stand, carried out in the order of their completion. A call is answered from
these and from the changes in the open transaction of its own thread. The
version advances whenever the changes that stand become more.
-/

namespace Scriptorium

namespace MemoryRepository

section Histories

/-- The threads that are in a transaction after one more completed call. -/
def inside (now : Thread → Bool) (e : Completion) : Thread → Bool := fun t =>
  match e.boundary? with
  | none => now t
  | some .opened => t = e.thread || now t
  | some .committed | some .undone => t ≠ e.thread && now t

def nobody : Thread → Bool := fun _ => false

/-- What ends the transaction in which the thread is, none while it is open. -/
def ending? (thread : Thread) (after : List Completion) : Option Boundary :=
  after.findSome? fun e => if e.thread = thread then e.boundary? else none

/-- A change counts if it is made outside of a transaction or in one that is committed, and for
the thread itself also while its transaction is open. -/
def counts (reader : Option Thread) (now : Thread → Bool) (e : Completion)
    (after : List Completion) : Bool :=
  !now e.thread || ending? e.thread after = some .committed ||
    (ending? e.thread after = none && reader = some e.thread)

/-- The changes that count, in the order of completion. -/
def changesFrom (reader : Option Thread) (now : Thread → Bool) : List Completion → List Change
  | [] => []
  | e :: after =>
    (if counts reader now e after then e.change?.toList else []) ++
      changesFrom reader (inside now e) after

/-- The changes that stand. -/
def standing (h : List Completion) : List Change := changesFrom none nobody h

/-- The changes that a thread may see. -/
def visible (thread : Thread) (h : List Completion) : List Change :=
  changesFrom (some thread) nobody h

variable {reader : Option Thread} {now : Thread → Bool} {e : Completion} {h : List Completion}

theorem inside_of_none (hboundary : e.boundary? = none) : inside now e = now := by
  funext t
  simp [inside, hboundary]

theorem inside_of_ne {t : Thread} (ht : e.thread ≠ t) : inside now e t = now t := by
  unfold inside
  rcases e.boundary? with _ | _ | _ | _ <;> simp [Ne.symm ht]

/-- The transaction that a thread opens is the only one. -/
theorem inside_of_opened (hbegan : e.boundary? = some .opened) :
    inside nobody e = fun t => decide (t = e.thread) := by
  funext t
  simp [inside, hbegan, nobody]

theorem ending?_append (thread : Thread) (h after : List Completion) :
    ending? thread (h ++ after) = (ending? thread h).or (ending? thread after) :=
  List.findSome?_append

/-- Who was in a transaction and no longer is has ended it. -/
theorem ending?_ne_none {t : Thread} (ht : now t = true) (hclosed : h.foldl inside now t = false) :
    ending? t h ≠ none := by
  induction h generalizing now with
  | nil => simp [ht] at hclosed
  | cons e h ih =>
    by_cases hthread : e.thread = t
    · cases hboundary : e.boundary? with
      | some b => simp [ending?, hthread, hboundary]
      | none =>
        rw [List.foldl_cons, inside_of_none hboundary] at hclosed
        simpa [ending?, hboundary] using ih ht hclosed
    · have hnow : inside now e t = true := (inside_of_ne hthread).trans ht
      simpa [ending?, hthread] using ih hnow hclosed

/-- When nobody is in a transaction, it is settled which changes count, whatever follows. -/
theorem changesFrom_append (hclosed : h.foldl inside now = nobody) (after : List Completion) :
    changesFrom reader now (h ++ after) = changesFrom none now h ++ changesFrom reader nobody after := by
  induction h generalizing now with
  | nil =>
    obtain rfl : now = nobody := hclosed
    rfl
  | cons e h ih =>
    have hcount {c : Change} (hc : e.change? = some c) :
        counts reader now e (h ++ after) = counts none now e h := by
      have hnow : inside now e = now := inside_of_none (Completion.boundary?_of_change? hc)
      cases hin : now e.thread with
      | false => simp [counts, hin]
      | true =>
        rw [List.foldl_cons, hnow] at hclosed
        have hended := ending?_ne_none hin (congrFun hclosed e.thread)
        obtain ⟨b, hb⟩ := Option.ne_none_iff_exists'.mp hended
        simp [counts, hin, ending?_append, hb]
    simp only [List.cons_append, changesFrom, ih hclosed, List.append_assoc]
    cases hc : e.change? with
    | none => simp
    | some c => rw [hcount hc]

/-- The calls of an open transaction: none of them ends it, and only its owner changes anything. -/
def During (owner : Thread) (h : List Completion) : Prop :=
  ∀ e ∈ h, e.boundary? = none ∧ (e.change? ≠ none → e.thread = owner)

theorem During.concat {owner : Thread} (h' : During owner h) (hboundary : e.boundary? = none)
    (howner : e.change? ≠ none → e.thread = owner) : During owner (h ++ [e]) := by
  intro x hx
  rcases List.mem_append.mp hx with hx | hx
  · exact h' x hx
  · obtain rfl := List.mem_singleton.mp hx
    exact ⟨hboundary, howner⟩

theorem During.foldl_inside {owner : Thread} (h' : During owner h) : h.foldl inside now = now := by
  induction h with
  | nil => rfl
  | cons e h ih =>
    rw [List.foldl_cons, inside_of_none (h' e List.mem_cons_self).1]
    exact ih fun x hx => h' x (List.mem_cons_of_mem _ hx)

/-- The changes of a transaction count all or none, as what follows decides. -/
theorem changesFrom_during {owner : Thread} (howner : now owner = true) (hduring : During owner h)
    (after : List Completion) :
    changesFrom reader now (h ++ after) =
      (if ending? owner after = some .committed ∨ ending? owner after = none ∧ reader = some owner
        then h.filterMap Completion.change? else []) ++ changesFrom reader now after := by
  induction h with
  | nil => simp
  | cons e h ih =>
    have hrest : During owner h := fun x hx => hduring x (List.mem_cons_of_mem _ hx)
    obtain ⟨hboundary, hthread⟩ := hduring e List.mem_cons_self
    have hending : ending? owner (h ++ after) = ending? owner after := by
      have hnone : ending? owner h = none := by
        rw [ending?, List.findSome?_eq_none_iff]
        intro x hx
        simp [(hrest x hx).1]
      rw [ending?_append, hnone, Option.none_or]
    rw [List.cons_append, changesFrom, inside_of_none hboundary, ih hrest]
    cases hc : e.change? with
    | none => simp [hc]
    | some c =>
      obtain rfl := hthread (by simp [hc])
      simp only [counts, howner, hending, Bool.not_true, Bool.false_or, Bool.or_eq_true,
        Bool.and_eq_true, decide_eq_true_eq, List.filterMap_cons_some hc]
      split <;> simp

end Histories

theorem owner_of_turn {r : MemoryRepository} {thread : Thread} {t : OpenTransaction}
    (hopen : r.transaction = some t) (hturn : r.mustWait thread = false) : t.owner = thread := by
  simpa [mustWait, hopen] using hturn

/-- A transaction apart from whether anything has changed in it. -/
def OpenTransaction.scope (t : OpenTransaction) : Thread × Contents := (t.owner, t.snapshot)

/-- How the repository stands to the completed calls. -/
inductive Phase (h : List Completion) (r : MemoryRepository) : Prop
  | idle (hclosed : h.foldl inside nobody = nobody) (hidle : r.transaction = none)
    (hentries : r.entries = Change.replay (standing h)) : Phase h r
  | busy {before during : List Completion} {began : Completion} {t : OpenTransaction}
    (hsplit : h = before ++ began :: during) (hclosed : before.foldl inside nobody = nobody)
    (hbegan : began.boundary? = some .opened) (howner : began.thread = t.owner)
    (hduring : During t.owner during) (hopen : r.transaction = some t)
    (hsnapshot : t.snapshot = Change.replay (standing before))
    (hentries : r.entries = (during.filterMap Completion.change?).foldl Change.apply t.snapshot) :
    Phase h r

namespace Phase

variable {h : List Completion} {r r' : MemoryRepository} {e : Completion}

theorem congr (hphase : Phase h r) (hentries : r'.entries = r.entries)
    (htransaction : r'.transaction = r.transaction) : Phase h r' := by
  cases hphase with
  | idle hclosed hidle hold =>
    exact .idle hclosed (htransaction.trans hidle) (hentries.trans hold)
  | busy hsplit hclosed hbegan howner hduring hopen hsnapshot hold =>
    exact .busy hsplit hclosed hbegan howner hduring (htransaction.trans hopen) hsnapshot
      (hentries.trans hold)

/-- The changes that a call makes outside of transactions are added to those that stand. -/
theorem standing_concat (hclosed : h.foldl inside nobody = nobody) (e : Completion) :
    standing (h ++ [e]) = standing h ++ e.change?.toList := by
  simp [standing, changesFrom_append hclosed, changesFrom, counts, nobody]

theorem foldl_concat (hclosed : h.foldl inside nobody = nobody) (hboundary : e.boundary? = none) :
    (h ++ [e]).foldl inside nobody = nobody := by
  rw [List.foldl_append, hclosed]
  exact inside_of_none hboundary

theorem silent (hphase : Phase h r) (hchange : e.change? = none) (hboundary : e.boundary? = none) :
    Phase (h ++ [e]) r := by
  cases hphase with
  | idle hclosed hidle hentries =>
    refine .idle (foldl_concat hclosed hboundary) hidle ?_
    rw [standing_concat hclosed, hchange]
    simpa using hentries
  | @busy before during began t hsplit hclosed hbegan howner hduring hopen hsnapshot hentries =>
    have hduring' : During t.owner (during ++ [e]) :=
      hduring.concat hboundary fun hne => absurd hchange hne
    refine .busy (by simp [hsplit]) hclosed hbegan howner hduring' hopen hsnapshot ?_
    simpa [hchange] using hentries

/-- A change by a thread that need not wait. -/
theorem changed (hphase : Phase h r) (hturn : r.mustWait e.thread = false) {c : Change}
    (hchange : e.change? = some c) (hentries : r'.entries = c.apply r.entries)
    (hscope : r'.transaction.map OpenTransaction.scope = r.transaction.map OpenTransaction.scope) :
    Phase (h ++ [e]) r' := by
  have hboundary := Completion.boundary?_of_change? hchange
  cases hphase with
  | idle hclosed hidle hold =>
    refine .idle (foldl_concat hclosed hboundary) (by simpa [hidle] using hscope) ?_
    rw [standing_concat hclosed, hchange, hentries, hold]
    simp [Change.replay]
  | @busy before during began t hsplit hclosed hbegan howner hduring hopen hsnapshot hold =>
    -- The transaction may come to be marked as dirty, but owner and snapshot stay.
    rw [hopen, Option.map_some, Option.map_eq_some_iff] at hscope
    obtain ⟨t', hopen', hsame⟩ := hscope
    obtain ⟨howner', hsnapshot'⟩ := Prod.mk.inj hsame
    have hduring' : During t'.owner (during ++ [e]) := by
      rw [howner']
      exact hduring.concat hboundary fun _ => (owner_of_turn hopen hturn).symm
    refine .busy (by simp [hsplit]) hclosed hbegan (howner.trans howner'.symm) hduring' hopen'
      (hsnapshot'.trans hsnapshot) ?_
    rw [hentries, hold, hsnapshot']
    simp [hchange]

/-- What the threads may see while a transaction is open. -/
theorem changesFrom_busy {before during : List Completion} {began : Completion} {owner : Thread}
    (hclosed : before.foldl inside nobody = nobody) (hbegan : began.boundary? = some .opened)
    (howner : began.thread = owner) (hduring : During owner during) (reader : Option Thread)
    (after : List Completion) :
    changesFrom reader nobody (before ++ began :: during ++ after) = standing before ++
      ((if ending? owner after = some .committed ∨ ending? owner after = none ∧ reader = some owner
        then during.filterMap Completion.change? else []) ++
      changesFrom reader (fun t => t = owner) after) := by
  have hinside : inside nobody began = fun t => decide (t = owner) := by
    rw [inside_of_opened hbegan, howner]
  -- What opens the transaction changes nothing, so the changes inside come right after those before.
  have hnone : began.change? = none := by
    cases hc : began.change? with
    | none => rfl
    | some c => simp [Completion.boundary?_of_change? hc] at hbegan
  rw [List.append_assoc, List.cons_append, changesFrom_append hclosed, changesFrom, hinside, hnone,
    changesFrom_during (by simp) hduring]
  simp [standing]

/-- The end of the open transaction. -/
theorem ended (hphase : Phase h r) (hturn : r.mustWait e.thread = false) {t : OpenTransaction}
    (hopen : r.transaction = some t) (hchange : e.change? = none) {b : Boundary}
    (hboundary : e.boundary? = some b) (hb : b ≠ .opened) (hidle : r'.transaction = none)
    (hentries : r'.entries = if b = .committed then r.entries else t.snapshot) :
    Phase (h ++ [e]) r' := by
  cases hphase with
  | idle hclosed hnone hold => simp [hnone] at hopen
  | @busy before during began t' hsplit hclosed hbegan howner hduring hopen' hsnapshot hold =>
    obtain rfl : t = t' := Option.some.inj (hopen.symm.trans hopen')
    have hthread : e.thread = t.owner := (owner_of_turn hopen hturn).symm
    have hafter : inside (fun x => decide (x = t.owner)) e = nobody := by
      funext x
      cases b <;> simp_all [inside, nobody]
    have hinside : (before ++ began :: during).foldl inside nobody = fun x => decide (x = t.owner) := by
      rw [List.foldl_append, hclosed, List.foldl_cons, inside_of_opened hbegan, howner,
        hduring.foldl_inside]
    refine .idle ?_ hidle ?_
    · rw [hsplit, List.foldl_append, hinside]
      exact hafter
    · have hending : ending? t.owner [e] = some b := by simp [ending?, hthread, hboundary]
      have hlast (now : Thread → Bool) : changesFrom none now [e] = [] := by
        simp [changesFrom, hchange]
      rw [standing, hsplit, changesFrom_busy hclosed hbegan howner hduring, hending, hlast,
        hentries, hold, hsnapshot]
      cases b <;> simp [Change.replay]

theorem outcome (hphase : Phase h r) (hturn : r.mustWait e.thread = false)
    (houtcome : Outcome r e r') : Phase (h ++ [e]) r' := by
  cases houtcome with
  | unchanged hchange hboundary => exact hphase.silent hchange hboundary
  | touched hchange hboundary => exact (hphase.silent hchange hboundary).congr rfl rfl
  | idle hchange hboundary hnothing => exact hphase.changed hturn hchange hnothing.symm rfl
  | changed hchange hboundary =>
    refine hphase.changed hturn hchange (entries_change r _) ?_
    unfold change
    cases hopen : r.transaction <;> rfl
  | opened hchange hboundary hidle =>
    cases hphase with
    | idle hclosed _ hold =>
      exact .busy rfl hclosed hboundary rfl nofun rfl hold rfl
    | busy _ _ _ _ _ hopen _ _ => simp [hidle] at hopen
  | committed hchange hboundary hopen =>
    exact hphase.ended hturn hopen hchange hboundary nofun rfl rfl
  | undone hchange hboundary hopen =>
    exact hphase.ended hturn hopen hchange hboundary nofun rfl rfl

/-- A thread that need not wait finds the changes that it may see. -/
theorem entries_visible (hphase : Phase h r) {thread : Thread} (hturn : r.mustWait thread = false) :
    r.entries = Change.replay (visible thread h) := by
  cases hphase with
  | idle hclosed hidle hold =>
    have hsame : changesFrom (some thread) nobody (_ ++ []) = _ := changesFrom_append hclosed []
    rw [List.append_nil, changesFrom, List.append_nil] at hsame
    rw [visible, hsame]
    exact hold
  | @busy before during began t hsplit hclosed hbegan howner hduring hopen hsnapshot hold =>
    obtain rfl := owner_of_turn hopen hturn
    have hvisible := changesFrom_busy hclosed hbegan howner hduring (some t.owner) []
    rw [List.append_nil, ← hsplit] at hvisible
    rw [visible, hvisible, hold, hsnapshot]
    simp [Change.replay, ending?, changesFrom]

end Phase

namespace Call

/-- The answer that contents give to a call that reads them. -/
def reading {α : Type} : Call α → Contents → Option (Except RepositoryError α)
  | .request (.load name), contents => some (.ok ((contents.get? name).map (·.payload)))
  | .request (.source name), contents => some (.ok ((contents.get? name).bind (·.source)))
  | .request (.save name _ _), contents =>
    some (if (contents.get? name).isSome then .error (.alreadyExists name) else .ok ())
  | .request (.deleteUnder package), contents =>
    some (.ok (contents.size - (contents.filterKeys fun name => !package.covers name).size))
  | .names, contents => some (.ok contents.keys)
  | _, _ => none

theorem perform_of_reading {α : Type} {call : Call α} {r : MemoryRepository}
    {answer : Except RepositoryError α} (h : call.reading r.entries = some answer)
    (thread : Thread) : (call.perform thread r).1 = answer := by
  cases call with
  | request q =>
    cases q with
    | load name => exact Option.some.inj h
    | save name payload source =>
      rw [← Option.some.inj h]
      simp only [perform, MemoryRepository.perform, save, Dictionary.contains]
      exact apply_ite Prod.fst _ _ _
    | deleteUnder package => exact Option.some.inj h
    | source name => exact Option.some.inj h
    | version => cases h
    | begin => cases h
    | commit => cases h
    | rollback => cases h
  | names => exact Option.some.inj h
  | touch => cases h

end Call

/-- The answer is that of the contents that the thread may see, or a refusal. -/
def Completion.Isolated (before : List Completion) (e : Completion) : Prop :=
  ∀ answer, e.call.reading (Change.replay (visible e.thread before)) = some answer →
    e.answer = answer ∨ e.answer = .error unavailable

namespace Threads

variable {s s' : Threads} {h h' e : List Completion}

theorem Step.phase (hstep : Step s e s') (hphase : Phase h s.repository) :
    Phase (h ++ e) s'.repository := by
  cases hstep with
  | setAvailable available =>
    rw [List.append_nil]
    exact hphase.congr rfl rfl
  | refuse hidle hneeds hdown => exact hphase.silent rfl rfl
  | enter hidle hup =>
    rw [List.append_nil]
    exact hphase.congr rfl rfl
  | complete hpending hturn => exact hphase.outcome hturn (outcome_perform _ _ _)

theorem Step.isolated (hstep : Step s e s') (hphase : Phase h s.repository) :
    ∀ x ∈ e, x.Isolated h := by
  cases hstep with
  | setAvailable available => exact nofun
  | enter hidle hup => exact nofun
  | refuse hidle hneeds hdown =>
    intro x hx answer hanswer
    obtain rfl := List.mem_singleton.mp hx
    exact .inr rfl
  | complete hpending hturn =>
    intro x hx answer hanswer
    obtain rfl := List.mem_singleton.mp hx
    rw [← hphase.entries_visible hturn] at hanswer
    exact .inl (Call.perform_of_reading hanswer _)

theorem Run.phase (hrun : Run .start h s) : Phase h s.repository := by
  induction hrun with
  | refl => exact .idle rfl rfl rfl
  | step hrun hstep ih => exact hstep.phase ih

/-- The call that a step completes is the last one of the run so far. -/
theorem Step.split (hstep : Step s e s') {before after : List Completion} {x : Completion}
    (hsplit : h ++ e = before ++ x :: after) :
    (∃ rest, h = before ++ x :: rest) ∨ before = h ∧ x ∈ e := by
  rcases List.append_eq_append_iff.mp hsplit with ⟨front, hbefore, he⟩ | ⟨rest, hh, he⟩
  · cases front with
    | nil => exact .inr ⟨by simpa using hbefore, by simp [he]⟩
    | cons y front => cases hstep <;> simp at he
  · cases rest with
    | nil =>
      rw [List.nil_append] at he
      exact .inr ⟨by simpa using hh.symm, he ▸ List.mem_cons_self⟩
    | cons y rest =>
      obtain ⟨rfl, -⟩ := List.cons.inj he
      exact .inl ⟨rest, hh⟩

theorem Run.isolated (hrun : Run .start h s) {before after : List Completion} {x : Completion}
    (hsplit : h = before ++ x :: after) : x.Isolated before := by
  induction hrun generalizing after with
  | refl => simp at hsplit
  | step hrun hstep ih =>
    rcases hstep.split hsplit with ⟨rest, hearlier⟩ | ⟨rfl, hx⟩
    · exact ih hearlier
    · exact hstep.isolated hrun.phase x hx

end Threads

section Versions

variable {r r' : MemoryRepository} {e : Completion}

theorem Later.of_lt (h : r.version < r'.version) : Later r r' := ⟨by omega, by omega⟩

theorem Later.of_eq (hversion : r'.version = r.version) (hentries : r'.entries = r.entries) :
    Later r r' :=
  ⟨Nat.le_of_eq hversion.symm, fun _ => hentries⟩

theorem rollback_idle (h : r.transaction = none) : r.rollback.2 = r := by
  rw [rollback, h]

theorem rollback_open {t : OpenTransaction} (h : r.transaction = some t) :
    r.rollback.2 = { r with entries := t.snapshot, transaction := none } := by
  rw [rollback, h]

theorem version_rollback (r : MemoryRepository) : r.rollback.2.version = r.version := by
  unfold rollback
  split <;> rfl

/-- An open transaction in which nothing has changed has left the contents alone. -/
def Noted (r : MemoryRepository) : Prop :=
  ∀ t, r.transaction = some t → t.dirty = false → r.entries = t.snapshot

theorem Noted.of_idle (h : r.transaction = none) : r.Noted := by
  intro t ht
  rw [h] at ht
  cases ht

theorem change_idle (h : r.transaction = none) (entries : Contents) :
    r.change entries = { r with entries, version := r.version + 1 } := by
  rw [change, h]

theorem change_open {t : OpenTransaction} (h : r.transaction = some t) (entries : Contents) :
    r.change entries = { r with entries, transaction := some { t with dirty := true } } := by
  rw [change, h]

/-- The contents that would be left if the open transaction were undone change only together with
the version. -/
theorem Outcome.later (houtcome : Outcome r e r') (hnoted : r.Noted) :
    r'.Noted ∧ Later r.rollback.2 r'.rollback.2 := by
  cases houtcome with
  | unchanged | idle => exact ⟨hnoted, .refl _⟩
  | touched =>
    refine ⟨hnoted, .of_lt ?_⟩
    rw [version_rollback, version_rollback]
    exact Nat.lt_succ_self _
  | @changed c =>
    cases hopen : r.transaction with
    | none =>
      have hidle : (r.change (c.apply r.entries)).transaction = none := by
        rw [change_idle hopen]
        exact hopen
      refine ⟨.of_idle hidle, .of_lt ?_⟩
      rw [version_rollback, version_rollback, change_idle hopen]
      exact Nat.lt_succ_self _
    | some t =>
      rw [change_open hopen, rollback_open hopen, rollback_open rfl]
      refine ⟨fun t' ht' hclean => ?_, .of_eq rfl rfl⟩
      cases ht'
      cases hclean
  | opened hchange hboundary hidle =>
    rw [rollback_idle hidle, rollback_open rfl]
    refine ⟨fun t ht _ => ?_, .of_eq rfl rfl⟩
    cases ht
    rfl
  | @committed t hchange hboundary hopen =>
    rw [rollback_open hopen, rollback_idle rfl]
    refine ⟨.of_idle rfl, ?_⟩
    cases hdirty : t.dirty with
    | true => exact .of_lt (Nat.lt_succ_self _)
    | false => exact .of_eq rfl (hnoted t hopen hdirty)
  | undone hchange hboundary hopen =>
    rw [rollback_open hopen, rollback_idle rfl]
    exact ⟨.of_idle rfl, .of_eq rfl rfl⟩

theorem rollback_setAvailable (r : MemoryRepository) (available : Bool) :
    (r.setAvailable available).rollback.2 = r.rollback.2.setAvailable available := by
  cases hopen : r.transaction with
  | none =>
    have hidle : (r.setAvailable available).transaction = none := hopen
    rw [rollback_idle hopen, rollback_idle hidle]
  | some t =>
    have hopen' : (r.setAvailable available).transaction = some t := hopen
    rw [rollback_open hopen, rollback_open hopen']
    rfl

namespace Threads

variable {s s' : Threads} {h e : List Completion}

theorem Step.later (hstep : Step s e s') (hnoted : s.repository.Noted) :
    s'.repository.Noted ∧ Later s.repository.rollback.2 s'.repository.rollback.2 := by
  cases hstep with
  | setAvailable available =>
    refine ⟨hnoted, ?_⟩
    rw [rollback_setAvailable]
    exact .of_eq rfl rfl
  | refuse | enter => exact ⟨hnoted, .refl _⟩
  | complete hpending hturn => exact (outcome_perform _ _ _).later hnoted

theorem Run.later (hrun : Run s h s') (hnoted : s.repository.Noted) :
    s'.repository.Noted ∧ Later s.repository.rollback.2 s'.repository.rollback.2 := by
  induction hrun with
  | refl => exact ⟨hnoted, .refl _⟩
  | step hrun hstep ih =>
    obtain ⟨hnoted', hlater⟩ := ih
    obtain ⟨hnoted'', hlater'⟩ := hstep.later hnoted'
    exact ⟨hnoted'', hlater.trans hlater'⟩

/-- Threads may interleave as they like: whenever no transaction is open, the contents are the
changes that stand in the order of their completion; every answer is that of the contents which the
calling thread may see; and between two such moments with one version token nothing has changed. -/
theorem serializable_run {h' : List Completion} (hrun : Run .start h s) (hrest : Run s h' s') :
    (s.repository.transaction = none → s.repository.entries = Change.replay (standing h)) ∧
    (∀ before x after, h = before ++ x :: after → x.Isolated before) ∧
    (s.repository.transaction = none → s'.repository.transaction = none →
      s'.repository.token = s.repository.token → s'.repository.entries = s.repository.entries) := by
  refine ⟨fun hidle => ?_, fun _ _ _ hsplit => hrun.isolated hsplit, fun hidle hidle' htoken => ?_⟩
  · cases hrun.phase with
    | idle _ _ hentries => exact hentries
    | busy _ _ _ _ _ hopen => simp [hidle] at hopen
  · -- Contents and version are compared as they would be if every open transaction were undone.
    obtain ⟨hnoted, -⟩ := hrun.later (.of_idle rfl)
    obtain ⟨-, hlater⟩ := hrest.later hnoted
    rw [rollback_idle hidle, rollback_idle hidle'] at hlater
    exact hlater.entries (VersionToken.numbered_inj htoken)

/-- A call that is carried out at once. -/
theorem Run.call {α : Type} (hrun : Run s h s') (thread : Thread) (call : Call α)
    (hidle : s'.pending thread = none)
    (hup : call.needsAvailable = true → s'.repository.available = true)
    (hturn : s'.repository.mustWait thread = false) :
    Run s (h ++ [⟨thread, call, (call.perform thread s'.repository).1⟩])
      { s' with repository := (call.perform thread s'.repository).2 } := by
  have hentered : Run s (h ++ []) (s'.setPending thread (some ⟨α, call⟩)) :=
    hrun.step (.enter hidle hup)
  have hpending : (s'.setPending thread (some ⟨α, call⟩)).pending thread = some ⟨α, call⟩ :=
    if_pos rfl
  have hcompleted := hentered.step (.complete hpending hturn)
  have hagain : (s'.setPending thread (some ⟨α, call⟩)).setPending thread none = s' := by
    unfold setPending
    congr 1
    funext t
    by_cases ht : t = thread <;> simp [ht, hidle]
  rw [List.append_nil, hagain] at hcompleted
  exact hcompleted

/-- The second thread saves its unit when the first has undone its transaction; a deletion that is
undone later leaves version and contents as they are. -/
theorem serializable_run_waiting :
    ∃ h s h' s', Run .start h s ∧ Run s h' s' ∧
      standing h = [.save (.script "B") ⟨"b", none⟩] ∧
      s.repository.entries = Change.replay [.save (.script "B") ⟨"b", none⟩] ∧
      h'.length = 3 ∧ s'.repository.entries = s.repository.entries := by
  have hopened := (Run.refl (s := .start)).call 1 (.request .begin) rfl (fun _ => rfl) rfl
  have hsaved := hopened.call 1 (.request (.save (.script "A") "a" none)) rfl (fun _ => rfl) rfl
  have hwaiting := hsaved.step
    (@Step.enter _ 2 _ (.request (.save (.script "B") "b" none)) rfl fun _ => rfl)
  have hundone := hwaiting.call 1 (.request .rollback) rfl (fun _ => rfl) rfl
  have hrun := hundone.step (@Step.complete _ 2 _ _ rfl rfl)
  have hconclude {h' : List Completion} {s' : Threads} (hrest : Run _ h' s') :=
    And.intro hrest (serializable_run hrun hrest)
  obtain ⟨hrest, hentries, -, hsame⟩ := hconclude
    (((Run.refl.call 1 (.request .begin) (by rfl) (fun _ => by rfl) (by rfl)).call 1
      (.request (.deleteUnder (QualifiedName.script "B").package)) (by rfl) (fun _ => by rfl)
      (by rfl)).call 1 (.request .rollback) (by rfl) (fun _ => by rfl) (by rfl))
  exact ⟨_, _, _, _, hrun, hrest, rfl, hentries rfl, rfl, hsame rfl rfl rfl⟩

end Threads

end Versions

end MemoryRepository

end Scriptorium

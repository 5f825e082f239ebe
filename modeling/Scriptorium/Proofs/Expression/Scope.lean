import Scriptorium.Proofs.Expression.Terms

/-!
# Translation and scope

A translation depends on the declared types of the variables that the expression
names and on nothing else in the table. Where an expression translates, it
translates to the same sentence wherever all those declarations stand.
-/

namespace Scriptorium.Expression

open VariableTable

variable {types : Registry} {t t' : VariableTable}

theorem exists_get? (h : Within t t') {name : String} {v : Variable} (k : t.get? name = some v) :
    ∃ v', t'.get? name = some v' ∧ v'.type = v.type := by
  have htype : t'.typeOf? name = some v.type := h name v.type (by simp [typeOf?, k])
  obtain ⟨v', hget, htype⟩ := Option.map_eq_some_iff.mp htype
  exact ⟨v', hget, htype⟩

theorem variableTerm?_within (h : Within t t') {name : List Char} {term : Term}
    (k : variableTerm? t name = some term) : variableTerm? t' name = some term := by
  obtain ⟨hname, v, hget, rfl⟩ := variableTerm?_eq_some.mp k
  obtain ⟨v', hget', htype⟩ := exists_get? h hget
  exact variableTerm?_eq_some.mpr ⟨hname, v', hget', by rw [htype]⟩

theorem element?_within (h : Within t t') {token : List Char} {term : Term}
    (k : element? t token = some term) : element? t' token = some term := by
  obtain ⟨name, rest, hsplit, hclose, hname, hindex, htype, hbound, hterm⟩ := element?_eq_some.mp k
  exact element?_eq_some.mpr
    ⟨name, rest, hsplit, hclose, hname, hindex, h _ _ htype, hbound, hterm⟩

theorem fieldChain_within (h : Within t t') {token : List Char} {term : Term}
    (k : (fieldChain t token).run types = .ok (some term)) :
    (fieldChain t' token).run types = .ok (some term) := by
  obtain ⟨hname, v, hget, hfollow⟩ := fieldChain_eq_some.mp k
  obtain ⟨v', hget', htype⟩ := exists_get? h hget
  exact fieldChain_eq_some.mpr ⟨hname, v', hget', by rwa [htype]⟩

theorem SlotTerm.within (h : Within t t') {token : List Char} {term : Term}
    (k : SlotTerm types t token term) : SlotTerm types t' token term := by
  cases k with
  | element hclose k => exact .element hclose (element?_within h k)
  | chain hclose hpoint k => exact .chain hclose hpoint (fieldChain_within h k)
  | declared hclose hpoint k => exact .declared hclose hpoint (variableTerm?_within h k)

/-- A token that is a value stays the same value where more is declared. -/
theorem classify_within (h : Within t t') {token : List Char} {term : Term}
    (k : (classify t token).run types = .ok (some term)) :
    (classify t' token).run types = .ok (some term) := by
  rw [classify_eq_some] at k ⊢
  exact k.imp_right fun ⟨hnone, hslot⟩ => ⟨hnone, hslot.within h⟩

theorem advance_within (h : Within t t') {previous : String} {state next : State}
    {token : List Char} (k : (advance t previous state token).run types = .ok next) :
    (advance t' previous state token).run types = .ok next := by
  cases state with
  | start =>
    simp only [advance, Inquiry.run_bind] at k ⊢
    rcases hclass : (classify t token).run types with cause | _ | term
    · simp [hclass] at k
    · simp [hclass] at k
    · rw [hclass] at k
      rw [classify_within h hclass]
      exact k
  | value kind first rest => exact k
  | operation kind first rest symbol =>
    simp only [advance, Inquiry.run_bind] at k ⊢
    rcases hclass : (classify t token).run types with cause | _ | term
    · simp [hclass] at k
    · simp [hclass] at k
    · rw [hclass] at k
      rw [classify_within h hclass]
      exact k
  | closed s => exact k

theorem readTokens_within (h : Within t t') {tokens : List (List Char)} {previous : String}
    {state : State} {s : Sentence} (k : (readTokens t previous state tokens).run types = .ok s) :
    (readTokens t' previous state tokens).run types = .ok s := by
  induction tokens generalizing previous state with
  | nil => exact k
  | cons token tokens ih =>
    simp only [readTokens, Inquiry.run_bind] at k ⊢
    rcases hnext : (advance t previous state token).run types with e | next
    · simp [hnext] at k
    · simp only [hnext] at k
      rw [advance_within h hnext]
      exact ih k

/-- A translation stays the same where more is declared. -/
theorem sentence_within (h : Within t t') {text : String} {s : Sentence}
    (k : (sentence t text).run types = .ok s) : (sentence t' text).run types = .ok s :=
  readTokens_within h k

end Scriptorium.Expression

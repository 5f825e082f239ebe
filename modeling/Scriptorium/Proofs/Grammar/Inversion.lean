import Scriptorium.Proofs.Grammar.Taking

/-!
# How a rule came to take something

When a rule built from others has taken a part of a text, its parts have taken
theirs, one after the other. The laws here read the combinators backwards; a
repetition is read from its first item on.
-/

namespace Scriptorium.Grammar.Rule

variable {α β : Type} {p q : Rule α} {cs rest : List Char} {a : α} {b : β}

theorem takes_accept_iff {a' : α} : Takes (accept a) cs a' rest ↔ a' = a ∧ rest = cs := by
  simp [Takes, accept, eq_comm]

theorem takes_word_iff {w : List Char} {u : Unit} : Takes (word w) cs u rest ↔ cs = w ++ rest := by
  unfold Takes word
  split
  · next hpre =>
    obtain ⟨left, rfl⟩ := List.isPrefixOf_iff_prefix.mp hpre
    simp
  · next hpre =>
    constructor
    · nofun
    · rintro rfl
      exact absurd (List.isPrefixOf_iff_prefix.mpr (List.prefix_append w rest)) hpre

theorem takes_andThen_iff {f : α → Rule β} :
    Takes (andThen p f) cs b rest ↔ ∃ a mid, Takes p cs a mid ∧ Takes (f a) mid b rest := by
  unfold Takes
  rw [result_andThen, Option.bind_eq_some_iff]
  constructor
  · rintro ⟨⟨a, mid⟩, hp, hf⟩
    exact ⟨a, mid, hp, hf⟩
  · rintro ⟨a, mid, hp, hf⟩
    exact ⟨(a, mid), hp, hf⟩

theorem takes_map_iff {f : α → β} :
    Takes (map f p) cs b rest ↔ ∃ a, Takes p cs a rest ∧ b = f a := by
  unfold map
  rw [takes_andThen_iff]
  constructor
  · rintro ⟨a, mid, hp, haccept⟩
    obtain ⟨rfl, rfl⟩ := takes_accept_iff.mp haccept
    exact ⟨a, hp, rfl⟩
  · rintro ⟨a, hp, rfl⟩
    exact ⟨a, rest, hp, accept_takes _ _⟩

theorem takes_named_iff : Takes (named p) cs a rest ↔ Takes p cs a rest := by
  unfold Takes
  rw [result_named]

/-- A choice takes what one of its two parts takes. -/
theorem Takes.cases_orElse (h : Takes (Rule.orElse p q) cs a rest) :
    Takes p cs a rest ∨ Takes q cs a rest := by
  unfold Takes at h ⊢
  rw [result_orElse] at h
  cases hp : (p cs).result with
  | none =>
    rw [hp] at h
    exact .inr h
  | some taken =>
    rw [hp] at h
    exact .inl h

/-- A repetition has ended at once, or taken an item and gone on behind it. -/
theorem Takes.cases_many {as : List α} (h : Takes (Rule.many p) cs as rest) :
    as = [] ∧ rest = cs ∨ ∃ a later mid, as = a :: later ∧ Takes p cs a mid ∧
      mid.length < cs.length ∧ Takes (Rule.many p) mid later rest := by
  unfold Takes at h ⊢
  rw [Rule.many] at h
  rcases hp : p cs with ⟨stuck, _ | ⟨a, mid⟩⟩
  · rw [hp] at h
    cases h
    exact .inl ⟨rfl, rfl⟩
  · rw [hp] at h
    dsimp only at h
    split at h
    · next shorter =>
      obtain ⟨⟨later, left⟩, hmany, hpair⟩ := Option.map_eq_some_iff.mp h
      cases hpair
      exact .inr ⟨a, later, mid, rfl, rfl, shorter, hmany⟩
    · cases h
      exact .inl ⟨rfl, rfl⟩

end Scriptorium.Grammar.Rule

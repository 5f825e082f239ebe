import Scriptorium.Name.Discriminator
import Scriptorium.Proofs.Text.Numeral

/-!
# No discriminator has two owners

A discriminator that has been handed out keeps its owner: a candidate that
belongs to another text is not handed out, and a number is new whenever it is
reached, since numbered discriminators are no identifiers.
-/

namespace Scriptorium.Discriminators

/-- Whatever has an owner is an identifier or has been numbered already. -/
def WellFormed (ds : Discriminators) : Prop :=
  ∀ d owner, ds.owners.get? d = some owner →
    Text.isIdentifier d.toList = true ∨ ∃ k ≤ ds.counter, d = numbered k

theorem wellFormed_start : start.WellFormed := fun _ _ h => by simp [start] at h

theorem numbered_inj {k n : Nat} (h : numbered k = numbered n) : k = n := by
  have hdigits : Text.natDigits k = Text.natDigits n :=
    (List.cons.inj (String.ofList_injective h)).2
  rw [← Text.digitsValue_natDigits k, hdigits, Text.digitsValue_natDigits]

theorem numbered_not_identifier (n : Nat) : Text.isIdentifier (numbered n).toList = false := by
  simp [numbered, Text.isIdentifier, Text.isIdentifierStart]

/-- What has been handed out is not empty. -/
theorem WellFormed.ne_empty {ds : Discriminators} (h : ds.WellFormed) {d owner : String}
    (howner : ds.owners.get? d = some owner) : d ≠ "" := by
  rintro rfl
  rcases h "" owner howner with hident | ⟨k, -, hnumber⟩
  · simp [Text.isIdentifier] at hident
  · simp [numbered] at hnumber

/-- An allocation gives its discriminator to the text and takes none from another. -/
theorem allocate_owners {ds : Discriminators} (h : ds.WellFormed) (text : String) :
    (ds.allocate text).2.WellFormed ∧
      (ds.allocate text).2.owners.get? (ds.allocate text).1 = some text ∧
      ∀ d owner, ds.owners.get? d = some owner →
        (ds.allocate text).2.owners.get? d = some owner := by
  unfold allocate
  dsimp only
  split
  · next hfree =>
    simp only [Bool.and_eq_true, Bool.not_eq_true'] at hfree
    obtain ⟨hident, hfree⟩ := hfree
    refine ⟨?_, by simp, ?_⟩
    · intro d owner howner
      by_cases hd : d = Name.expressionDiscriminator text
      · exact .inl (hd ▸ hident)
      · rw [Dictionary.get?_insert_of_ne _ hd] at howner
        exact h d owner howner
    · intro d owner howner
      by_cases hd : d = Name.expressionDiscriminator text
      · subst hd
        have hsame : owner = text := by simpa [taken, howner] using hfree
        simp [hsame]
      · rw [Dictionary.get?_insert_of_ne _ hd]
        exact howner
  · refine ⟨?_, by simp, ?_⟩
    · intro d owner howner
      by_cases hd : d = numbered (ds.counter + 1)
      · exact .inr ⟨ds.counter + 1, Nat.le_refl _, hd⟩
      · rw [Dictionary.get?_insert_of_ne _ hd] at howner
        rcases h d owner howner with hident | ⟨k, hk, hnumber⟩
        · exact .inl hident
        · exact .inr ⟨k, Nat.le_succ_of_le hk, hnumber⟩
    · intro d owner howner
      have hd : d ≠ numbered (ds.counter + 1) := by
        rintro rfl
        rcases h _ owner howner with hident | ⟨k, hk, hnumber⟩
        · rw [numbered_not_identifier] at hident
          cases hident
        · have := numbered_inj hnumber
          omega
      rw [Dictionary.get?_insert_of_ne _ hd]
      exact howner

end Scriptorium.Discriminators

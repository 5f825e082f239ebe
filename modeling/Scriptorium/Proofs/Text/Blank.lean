import Mathlib.Data.List.TakeWhile
import Scriptorium.Text.Blank

/-!
# Words and the blanks around them

A text is cut into words exactly as it is made of them: blanks may stand before
the first word and behind the last, and at least one stands between two words.
Trimming takes the blanks around a text away and leaves its words as they are.
-/

namespace Scriptorium.Text

/-- There are only blanks. -/
def Blanks (cs : List Char) : Prop := ∀ c ∈ cs, isBlank c = true

instance (cs : List Char) : Decidable (Blanks cs) :=
  List.decidableBAll (isBlank · = true) cs

/-- There is at least one character, and none of them is a blank. -/
structure IsWord (w : List Char) : Prop where
  nonempty : w ≠ []
  solid : ∀ c ∈ w, isBlank c = false

/-- A word in front of the text ends there. -/
def EndsWord (rest : List Char) : Prop := ∀ c ∈ rest.head?, isBlank c = true

/-- The text is made of the words, with blanks around them and at least one between two. -/
inductive Spaced : List (List Char) → List Char → Prop
  | blanks {cs : List Char} (h : Blanks cs) : Spaced [] cs
  | word {before w rest : List Char} {ws : List (List Char)} (hbefore : Blanks before)
    (hw : IsWord w) (hrest : EndsWord rest) (h : Spaced ws rest) :
    Spaced (w :: ws) (before ++ (w ++ rest))

/-! ## Trimming -/

theorem trimEnd_append {cs after : List Char} (h : Blanks after) :
    trimEnd (cs ++ after) = trimEnd cs := by
  have hafter : ∀ c ∈ after.reverse, isBlank c = true := fun c hc => h c (List.mem_reverse.mp hc)
  rw [trimEnd, List.reverse_append, List.dropWhile_append_of_pos hafter, trimEnd]

theorem trimStart_append {before cs : List Char} (h : Blanks before) :
    trimStart (before ++ cs) = trimStart cs := List.dropWhile_append_of_pos h

theorem trim_append {before cs after : List Char} (hbefore : Blanks before) (hafter : Blanks after) :
    trim (before ++ (cs ++ after)) = trim cs := by
  rw [trim, trimStart_append hbefore, trim]
  by_cases hcs : Blanks cs
  · -- Nothing but blanks is left, so the front is taken away together with the end.
    have hall : Blanks (cs ++ after) := List.forall_mem_append.mpr ⟨hcs, hafter⟩
    rw [trimStart, List.dropWhile_eq_nil_iff.mpr hall, trimStart,
      List.dropWhile_eq_nil_iff.mpr hcs]
  · have hne : cs.dropWhile isBlank ≠ [] := fun hnil => hcs (List.dropWhile_eq_nil_iff.mp hnil)
    rw [trimStart, List.dropWhile_append, if_neg (by simpa using hne), trimEnd_append hafter,
      trimStart]

/-- A text without blanks is not trimmed. -/
theorem trim_of_solid {cs : List Char} (h : ∀ c ∈ cs, isBlank c = false) : trim cs = cs := by
  have hdrop (ds : List Char) (hds : ∀ c ∈ ds, isBlank c = false) : ds.dropWhile isBlank = ds := by
    cases ds with
    | nil => rfl
    | cons d ds => exact List.dropWhile_cons_of_neg (by simp [hds d List.mem_cons_self])
  have hreverse : ∀ c ∈ cs.reverse, isBlank c = false := fun c hc => h c (List.mem_reverse.mp hc)
  rw [trim, trimStart, hdrop cs h, trimEnd, hdrop _ hreverse, List.reverse_reverse]

/-- What trimming takes away are blanks. -/
theorem exists_trim (cs : List Char) :
    ∃ before after, Blanks before ∧ Blanks after ∧ cs = before ++ (trim cs ++ after) := by
  have hfront : cs.takeWhile isBlank ++ trimStart cs = cs := List.takeWhile_append_dropWhile
  have hend : trimEnd (trimStart cs) ++ ((trimStart cs).reverse.takeWhile isBlank).reverse =
      trimStart cs := by
    rw [trimEnd, ← List.reverse_append, List.takeWhile_append_dropWhile, List.reverse_reverse]
  refine ⟨cs.takeWhile isBlank, ((trimStart cs).reverse.takeWhile isBlank).reverse, ?_, ?_, ?_⟩
  · exact fun c hc => List.mem_takeWhile_imp hc
  · exact fun c hc => List.mem_takeWhile_imp (List.mem_reverse.mp hc)
  · rw [trim, hend, hfront]

/-- A text without blanks is what is left of a text exactly when there are only blanks around it. -/
theorem trim_eq_iff {cs core : List Char} (h : ∀ c ∈ core, isBlank c = false) :
    trim cs = core ↔
      ∃ before after, Blanks before ∧ Blanks after ∧ cs = before ++ (core ++ after) := by
  constructor
  · rintro rfl
    exact exists_trim cs
  · rintro ⟨before, after, hbefore, hafter, rfl⟩
    rw [trim_append hbefore hafter, trim_of_solid h]

theorem trim_eq_nil_iff {cs : List Char} : trim cs = [] ↔ Blanks cs := by
  rw [trim_eq_iff (List.forall_mem_nil _)]
  constructor
  · rintro ⟨before, after, hbefore, hafter, rfl⟩
    exact List.forall_mem_append.mpr ⟨hbefore, hafter⟩
  · exact fun h => ⟨cs, [], h, List.forall_mem_nil _, (List.append_nil cs).symm⟩

/-! ## Words -/

theorem words_cons_of_blank {c : Char} (hc : isBlank c = true) (cs : List Char) :
    words (c :: cs) = words cs := by
  simp [words, cutWords, hc, consWord]

theorem cutWords_cons_of_blank {c : Char} (hc : isBlank c = true) (cs : List Char) :
    cutWords (c :: cs) = ([], words cs) := by
  simp [cutWords, hc, words]

theorem words_append_of_blanks {before : List Char} (h : Blanks before) (cs : List Char) :
    words (before ++ cs) = words cs := by
  induction before with
  | nil => rfl
  | cons c before ih =>
    obtain ⟨hc, hbefore⟩ := List.forall_mem_cons.mp h
    rw [List.cons_append, words_cons_of_blank hc, ih hbefore]

theorem cutWords_of_endsWord {rest : List Char} (h : EndsWord rest) :
    cutWords rest = ([], words rest) := by
  cases rest with
  | nil => rfl
  | cons c cs =>
    have hc : isBlank c = true := h c rfl
    rw [cutWords_cons_of_blank hc, words_cons_of_blank hc]

theorem cutWords_append {w : List Char} (hw : ∀ c ∈ w, isBlank c = false) (rest : List Char) :
    cutWords (w ++ rest) = (w ++ (cutWords rest).1, (cutWords rest).2) := by
  induction w with
  | nil => rfl
  | cons c w ih =>
    obtain ⟨hc, hw⟩ := List.forall_mem_cons.mp hw
    simp [cutWords, ih hw, hc]

/-- A word is cut off where it ends. -/
theorem words_word {w rest : List Char} (hw : IsWord w) (hrest : EndsWord rest) :
    words (w ++ rest) = w :: words rest := by
  rw [words, cutWords_append hw.solid, cutWords_of_endsWord hrest, List.append_nil]
  obtain ⟨c, cs, rfl⟩ := List.exists_cons_of_ne_nil hw.nonempty
  rfl

theorem Spaced.words_eq {ws : List (List Char)} {cs : List Char} (h : Spaced ws cs) :
    words cs = ws := by
  induction h with
  | blanks h =>
    have hwords := words_append_of_blanks h []
    rwa [List.append_nil] at hwords
  | word hbefore hw hrest _ ih => rw [words_append_of_blanks hbefore, words_word hw hrest, ih]

/-- A blank joins the blanks in front of the first word. -/
theorem Spaced.cons_blank {ws : List (List Char)} {cs : List Char} {c : Char}
    (hc : isBlank c = true) (h : Spaced ws cs) : Spaced ws (c :: cs) := by
  cases h with
  | blanks h => exact .blanks (List.forall_mem_cons.mpr ⟨hc, h⟩)
  | word hbefore hw hrest h =>
    rw [← List.cons_append]
    exact .word (List.forall_mem_cons.mpr ⟨hc, hbefore⟩) hw hrest h

theorem Spaced.consWord {ws : List (List Char)} {w rest : List Char}
    (hw : ∀ c ∈ w, isBlank c = false) (hrest : EndsWord rest) (h : Spaced ws rest) :
    Spaced (consWord w ws) (w ++ rest) := by
  cases w with
  | nil => exact h
  | cons c w => exact .word (List.forall_mem_nil _) ⟨List.cons_ne_nil c w, hw⟩ hrest h

/-- A text is its characters in front of the first blank and what its other words are in. -/
theorem exists_cutWords (cs : List Char) :
    ∃ rest, cs = (cutWords cs).1 ++ rest ∧ EndsWord rest ∧ Spaced (cutWords cs).2 rest := by
  induction cs with
  | nil => exact ⟨[], rfl, nofun, .blanks nofun⟩
  | cons c cs ih =>
    obtain ⟨rest, hcs, hrest, hspaced⟩ := ih
    cases hc : isBlank c with
    | false => exact ⟨rest, by simp [cutWords, hc, ← hcs], hrest, by simpa [cutWords, hc]⟩
    | true =>
      have hsolid := not_isBlank_of_mem_cutWords cs
      have hwords : Spaced (words cs) cs := by
        have := hspaced.consWord hsolid hrest
        rwa [← hcs] at this
      rw [cutWords_cons_of_blank hc]
      exact ⟨c :: cs, rfl, by simpa [EndsWord] using hc, hwords.cons_blank hc⟩

theorem spaced_words (cs : List Char) : Spaced (words cs) cs := by
  obtain ⟨rest, hcs, hrest, hspaced⟩ := exists_cutWords cs
  have := hspaced.consWord (not_isBlank_of_mem_cutWords cs) hrest
  rwa [← hcs] at this

theorem Spaced.isWord {ws : List (List Char)} {cs : List Char} (h : Spaced ws cs) :
    ∀ w ∈ ws, IsWord w := by
  induction h with
  | blanks => exact List.forall_mem_nil _
  | word _ hw _ _ ih => exact List.forall_mem_cons.mpr ⟨hw, ih⟩

/-- A text is cut into the words that it is made of. -/
theorem words_eq_iff {ws : List (List Char)} {cs : List Char} : words cs = ws ↔ Spaced ws cs := by
  constructor
  · rintro rfl
    exact spaced_words cs
  · exact Spaced.words_eq

theorem Blanks.endsWord {cs : List Char} (h : Blanks cs) : EndsWord cs :=
  fun c hc => h c (List.mem_of_mem_head? hc)

theorem EndsWord.append {rest after : List Char} (h : EndsWord rest) (hafter : Blanks after) :
    EndsWord (rest ++ after) := by
  cases rest with
  | nil => exact hafter.endsWord
  | cons c rest => exact h

theorem Spaced.append_blanks {ws : List (List Char)} {cs after : List Char} (h : Spaced ws cs)
    (hafter : Blanks after) : Spaced ws (cs ++ after) := by
  induction h with
  | blanks h => exact .blanks (List.forall_mem_append.mpr ⟨h, hafter⟩)
  | word hbefore hw hrest _ ih =>
    rw [List.append_assoc, List.append_assoc]
    exact .word hbefore hw (hrest.append hafter) ih

/-- Trimming leaves the words as they are. -/
theorem words_trim (cs : List Char) : words (trim cs) = words cs := by
  obtain ⟨before, after, hbefore, hafter, hcs⟩ := exists_trim cs
  have hspaced := (spaced_words (trim cs)).append_blanks hafter
  calc words (trim cs) = words (trim cs ++ after) := hspaced.words_eq.symm
    _ = words (before ++ (trim cs ++ after)) := (words_append_of_blanks hbefore _).symm
    _ = words cs := by rw [← hcs]

end Scriptorium.Text

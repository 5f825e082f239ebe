import Scriptorium.Proofs.Grammar.Taking
import Scriptorium.Proofs.Text.Numeral
import Scriptorium.Target.Parser

/-!
# Blanks, quoted texts and numerals of target code

Every rule of target code stands behind blanks or at the end of a part that has
none, so a rule that passes over the blanks behind its part may still be
followed by the next one: `Reads` says what a rule takes when what it leaves is
known up to blanks. A quoted text ends at its own closing quote, and a numeral
where its digits end.
-/

namespace Scriptorium.Target

open Grammar Grammar.Rule Text

variable {α β : Type}

/-- No blank stands at the front of the text. -/
def Tight (cs : List Char) : Prop := cs.dropWhile isSpace = cs

theorem tight_cons {c : Char} (h : isSpace c = false) (cs : List Char) : Tight (c :: cs) := by
  simp [Tight, h]

theorem tight_word {w : String} (h : w.toList.head?.map isSpace = some false)
    (cs : List Char) : Tight (w.toList ++ cs) := by
  cases hw : w.toList with
  | nil => simp [hw] at h
  | cons c ds => exact tight_cons (by simpa [hw] using h) _

theorem dropWhile_dropWhile (cs : List Char) :
    (cs.dropWhile isSpace).dropWhile isSpace = cs.dropWhile isSpace := by
  induction cs with
  | nil => rfl
  | cons c cs ih =>
    by_cases hc : isSpace c
    · simp only [List.dropWhile_cons, hc, if_true, ih]
    · simp [hc]

/-- The text is the rest but for blanks at the front. -/
def Trims (left rest : List Char) : Prop :=
  left.dropWhile isSpace = rest.dropWhile isSpace ∧ left.length ≤ rest.length

theorem Trims.refl (rest : List Char) : Trims rest rest := ⟨rfl, Nat.le_refl _⟩

theorem Trims.trans {left mid rest : List Char} (h : Trims left mid) (k : Trims mid rest) :
    Trims left rest := ⟨h.1.trans k.1, Nat.le_trans h.2 k.2⟩

theorem dropWhile_trims (rest : List Char) : Trims (rest.dropWhile isSpace) rest :=
  ⟨dropWhile_dropWhile rest, (List.dropWhile_suffix _).length_le⟩

/-- The rule takes `a` and leaves the rest, but for blanks in front of it. -/
def Reads (p : Rule α) (cs : List Char) (a : α) (rest : List Char) : Prop :=
  ∃ left, Takes p cs a left ∧ Trims left rest

theorem Reads.of_takes {p : Rule α} {cs rest : List Char} {a : α} (h : Takes p cs a rest) :
    Reads p cs a rest := ⟨rest, h, .refl rest⟩

theorem Reads.of_takes_dropped {p : Rule α} {cs rest : List Char} {a : α}
    (h : Takes p cs a (rest.dropWhile isSpace)) : Reads p cs a rest :=
  ⟨_, h, dropWhile_trims rest⟩

theorem Reads.trans {p : Rule α} {cs mid rest : List Char} {a : α} (h : Reads p cs a mid)
    (k : Trims mid rest) : Reads p cs a rest := by
  obtain ⟨left, htakes, hleft⟩ := h
  exact ⟨left, htakes, hleft.trans k⟩

theorem Reads.named {p : Rule α} {cs rest : List Char} {a : α} (h : Reads p cs a rest) :
    Reads (Rule.named p) cs a rest := by
  obtain ⟨left, htakes, hrest⟩ := h
  exact ⟨left, htakes.named, hrest⟩

theorem Reads.map {p : Rule α} {cs rest : List Char} {a : α} (h : Reads p cs a rest)
    (f : α → β) : Reads (Rule.map f p) cs (f a) rest := by
  obtain ⟨left, htakes, hrest⟩ := h
  exact ⟨left, htakes.map f, hrest⟩

/-- What is read first is exact where the next part is read behind blanks. -/
theorem Takes.andThen_reads {p : Rule α} {q : α → Rule β} {cs mid rest : List Char} {a : α}
    {b : β} (h : Takes p cs a mid) (k : Reads (q a) mid b rest) :
    Reads (Rule.andThen p q) cs b rest := by
  obtain ⟨left, htakes, hrest⟩ := k
  exact ⟨left, h.andThen htakes, hrest⟩

theorem result_spaced (p : Rule α) (cs : List Char) :
    (spaced p cs).result = (p (cs.dropWhile isSpace)).result := by
  unfold spaced
  rw [result_andThen]
  rfl

theorem spaced_takes_iff {p : Rule α} {cs rest : List Char} {a : α} :
    Takes (spaced p) cs a rest ↔ Takes p (cs.dropWhile isSpace) a rest := by
  unfold Takes
  rw [result_spaced]

theorem spaced_refuses_iff {p : Rule α} {cs : List Char} :
    Refuses (spaced p) cs ↔ Refuses p (cs.dropWhile isSpace) := by
  unfold Refuses
  rw [result_spaced]

theorem Tight.takes {p : Rule α} {cs rest : List Char} {a : α} (h : Tight cs)
    (k : Takes p cs a rest) : Takes (spaced p) cs a rest := by
  rw [spaced_takes_iff, h]
  exact k

theorem Tight.refuses {p : Rule α} {cs : List Char} (h : Tight cs) (k : Refuses p cs) :
    Refuses (spaced p) cs := by
  rw [spaced_refuses_iff, h]
  exact k

theorem spacedWord_takes {w : String} {cs : List Char} (h : Tight (w.toList ++ cs)) :
    Takes (spacedWord w) (w.toList ++ cs) () cs := h.takes (word_takes _ _)

/-- The rule applies to the text again and again, and refuses what is left. -/
inductive Repeats (p : Rule α) : List Char → List α → List Char → Prop
  | done {cs : List Char} (h : Refuses (spaced p) cs) : Repeats p cs [] cs
  | more {cs mid rest : List Char} {a : α} {as : List α} (h : Takes (spaced p) cs a mid)
    (shorter : mid.length < cs.length) (k : Repeats p mid as rest) : Repeats p cs (a :: as) rest

theorem Repeats.takes {p : Rule α} {cs rest : List Char} {as : List α}
    (h : Repeats p cs as rest) : Takes (many (spaced p)) cs as rest := by
  induction h with
  | done h => exact h.many
  | more h shorter _ ih => exact h.many shorter ih

theorem Repeats.reads {p : Rule α} {cs rest : List Char} {as : List α}
    (h : Repeats p cs as rest) : Reads (spaced (spacedMany p)) cs as rest := by
  cases h with
  | done h =>
    refine Reads.of_takes_dropped (spaced_takes_iff.mpr ?_)
    exact ((spaced_refuses_iff.mp h).andThen _).orElse_takes (accept_takes _ _)
  | more h shorter k =>
    refine Reads.of_takes (spaced_takes_iff.mpr (Takes.orElse ?_ _))
    exact (spaced_takes_iff.mp h).andThen (k.takes.map _)

/-! ## Quoted texts and numerals -/

/-- The spelling of a text inside quotes. -/
def quotedBody (cs : List Char) : List Char :=
  cs.flatMap fun c => if c = '"' || c = '\\' then ['\\', c] else [c]

theorem cutContent_quotedBody (cs rest : List Char) :
    cutContent (quotedBody cs ++ '"' :: rest) = (cs, '"' :: rest) := by
  induction cs with
  | nil => simp [quotedBody, cutContent]
  | cons c cs ih =>
    have hcons : quotedBody (c :: cs) =
        (if c = '"' || c = '\\' then ['\\', c] else [c]) ++ quotedBody cs := rfl
    rw [hcons]
    by_cases hq : c = '"'
    · subst hq
      simp [cutContent, ih]
    · by_cases hb : c = '\\'
      · subst hb
        simp [cutContent, ih]
      · simp [cutContent, hq, hb, ih]

theorem quoted_takes (cs rest : List Char) : Takes quoted (quoteText cs ++ rest) cs rest := by
  have hcut := cut_takes (f := fun cs => some (cutContent cs))
    (congrArg some (cutContent_quotedBody cs rest))
  have hopen : quoteText cs ++ rest = ['"'] ++ (quotedBody cs ++ '"' :: rest) := by
    simp [quoteText, quotedBody]
  rw [hopen]
  exact ((word_takes _ _).andThen (hcut.andThen ((word_takes ['"'] rest).map _))).named

theorem digits_takes {ds rest : List Char} (hd : Text.isDigits ds = true)
    (hr : EndsDigits rest) : Takes digits (ds ++ rest) ds rest := by
  obtain ⟨hne, hall⟩ := isDigits_iff.mp hd
  refine Takes.named (cut_takes ?_)
  simp [takeWhile_digits hall hr, dropWhile_digits hall hr, hne]

theorem cutInteger_append {numeral rest : List Char} (hn : Text.isInteger numeral = true)
    (hr : EndsDigits rest) : cutInteger (numeral ++ rest) = some (numeral, rest) := by
  unfold Text.isInteger Text.unsigned at hn
  split at hn
  · next ds =>
    obtain ⟨hne, hall⟩ := isDigits_iff.mp hn
    simp [cutInteger, takeWhile_digits hall hr, dropWhile_digits hall hr, hne]
  · next hsign =>
    obtain ⟨hne, hall⟩ := isDigits_iff.mp hn
    obtain ⟨d, ds, rfl⟩ := List.exists_cons_of_ne_nil hne
    have hd : d ≠ '-' := fun h => hsign ds (by rw [h])
    have htake := takeWhile_digits hall hr
    have hdrop := dropWhile_digits hall hr
    simp only [List.cons_append] at htake hdrop ⊢
    simp [cutInteger, hd, htake, hdrop]


theorem cutDecimal_append {numeral rest : List Char} (hn : Text.isDecimal numeral = true)
    (hr : EndsDigits rest) : cutDecimal (numeral ++ rest) = some (numeral, rest) := by
  obtain ⟨whole, fraction, hbody, hwhole, hfraction⟩ := isDecimal_iff hn
  obtain ⟨hne, hall⟩ := isDigits_iff.mp hfraction
  have hpoint : EndsDigits ('.' :: fraction ++ rest) := by
    intro c hc
    obtain rfl : '.' = c := by simpa using hc
    rfl
  have htake := takeWhile_digits hwhole hpoint
  have hdrop := dropWhile_digits hwhole hpoint
  have htake' := takeWhile_digits hall hr
  have hdrop' := dropWhile_digits hall hr
  unfold Text.unsigned at hbody
  split at hbody
  · next ds =>
    subst hbody
    simp only [List.cons_append, List.append_assoc] at htake hdrop ⊢
    simp [cutDecimal, htake, hdrop, htake', hdrop', hne]
  · next hsign =>
    subst hbody
    have hminus : ∀ ds, whole ++ '.' :: fraction ++ rest ≠ '-' :: ds := by
      intro ds h
      cases whole with
      | nil => simp at h
      | cons c whole =>
        obtain ⟨rfl, -⟩ := List.cons.inj h
        exact absurd (hwhole '-' (by simp)) (by decide)
    simp only [List.cons_append, List.append_assoc] at htake hdrop hminus ⊢
    unfold cutDecimal
    split
    · next sign body hmatch =>
      split at hmatch
      · next ds h => exact absurd h (hminus _)
      · cases hmatch
        simp [htake, hdrop, htake', hdrop', hne]

end Scriptorium.Target

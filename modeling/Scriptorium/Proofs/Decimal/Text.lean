import Scriptorium.Decimal.Text
import Scriptorium.Proofs.Text.Numeral

/-!
# Decimal numerals are read

Every decimal numeral denotes a decimal: it is none of the words for numbers
that are not finite, and behind its digits nothing is left.
-/

namespace Scriptorium.Decimal

open Text

theorem readNumeral?_append {whole fraction : List Char} (hw : ∀ c ∈ whole, c.isDigit = true)
    (hf : isDigits fraction = true) (negative : Bool) :
    readNumeral? negative (whole ++ '.' :: fraction) =
      some (ofDigits negative (digitsValue (whole ++ fraction)) (-fraction.length)) := by
  obtain ⟨hne, hall⟩ := isDigits_iff.mp hf
  have hpoint : EndsDigits ('.' :: fraction) := by
    intro c hc
    obtain rfl : '.' = c := by simpa using hc
    rfl
  have hend : EndsDigits [] := by simp [EndsDigits]
  have htake := takeWhile_digits hw hpoint
  have hdrop := dropWhile_digits hw hpoint
  have htake' := takeWhile_digits hall hend
  have hdrop' := dropWhile_digits hall hend
  rw [List.append_nil] at htake' hdrop'
  simp [readNumeral?, htake, hdrop, htake', hdrop', hne, readExponent?]

/-- A text with a point is no word for an infinite number or for what is not a number. -/
theorem word_ne {cs : List Char} (h : '.' ∈ cs) {w : String} (hw : '.' ∉ w.toList) :
    (String.ofList (cs.map Char.toLower) == w) = false := by
  refine beq_eq_false_iff_ne.mpr fun e => hw ?_
  rw [← e, String.toList_ofList]
  exact List.mem_map.mpr ⟨'.', h, rfl⟩

theorem cutSign_of_isDecimal {numeral : List Char} (h : isDecimal numeral = true) :
    ∃ negative, cutSign numeral = (negative, unsigned numeral) := by
  obtain ⟨whole, fraction, hbody, hwhole, -⟩ := isDecimal_iff h
  unfold cutSign
  split
  · exact ⟨true, rfl⟩
  · next cs =>
    have hplus : '+' :: cs = whole ++ '.' :: fraction := hbody
    cases whole with
    | nil => simp at hplus
    | cons c whole =>
      obtain ⟨rfl, -⟩ := List.cons.inj hplus
      exact absurd (hwhole '+' (by simp)) (by decide)
  · next hminus _ =>
    refine ⟨false, ?_⟩
    unfold unsigned
    split
    · exact absurd rfl (hminus _)
    · rfl

theorem read?_of_isDecimal {numeral : List Char} (h : isDecimal numeral = true) :
    ∃ d, read? numeral = some d := by
  obtain ⟨negative, hsign⟩ := cutSign_of_isDecimal h
  obtain ⟨whole, fraction, hbody, hwhole, hfraction⟩ := isDecimal_iff h
  have hpoint : '.' ∈ unsigned numeral := by simp [hbody]
  have hread := readNumeral?_append hwhole hfraction negative
  refine ⟨ofDigits negative (digitsValue (whole ++ fraction)) (-fraction.length), ?_⟩
  unfold read?
  rw [hsign]
  simp only [word_ne hpoint (w := "inf") (by decide), word_ne hpoint (w := "infinity") (by decide),
    word_ne hpoint (w := "nan") (by decide), Bool.or_self, Bool.false_eq_true, if_false]
  rw [hbody]
  exact hread

end Scriptorium.Decimal

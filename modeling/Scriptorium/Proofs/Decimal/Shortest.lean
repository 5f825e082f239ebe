import Scriptorium.Decimal.Shortest
import Scriptorium.Proofs.Text.Numeral

/-!
# The shortest digits of a magnitude

The shortest numeral of a magnitude other than zero has digits, and the first
of them is not zero. A candidate that rounds back to the magnitude is not zero;
where no candidate does, the digits are those of the magnitude itself behind
the decimal point that was found for it.
-/

namespace Scriptorium.Decimal

theorem significand_pos {rank : Nat} (h : rank ≠ 0) : 0 < significand rank := by
  unfold significand
  split
  · omega
  · have : 0 < binade := by decide
    omega

theorem exponent_ge (rank : Nat) : -1074 ≤ exponent rank := by
  unfold exponent
  split
  · omega
  · next h =>
    have : 1 ≤ rank / binade := (Nat.one_le_div_iff (by decide)).mpr (Nat.le_of_not_lt h)
    omega

theorem candidate?_ne_zero {tie : Tie} {rank num den count d : Nat} {point : Int} (hrank : rank ≠ 0)
    (h : candidate? tie rank num den point count = some d) : d ≠ 0 := by
  have hzero : ∀ den, roundsTo rank 0 den = false := by
    intro den
    simp [roundsTo, rankOfRatio, hrank.symm]
  simp only [candidate?] at h
  split at h
  · next hfits =>
    split at h
    · cases h
      exact Nat.succ_ne_zero _
    · cases h
      intro hlow
      rw [hlow, Nat.zero_mul, hzero] at hfits
      cases hfits
  · split at h
    · cases h
      exact Nat.succ_ne_zero _
    · cases h

/-- The digits before the point are those of a number that is not less than the power of ten
below it. -/
theorem le_of_decimalPoint {num den : Nat} (hnum : den ≤ num * Nat.pow 10 400) (hden : 0 < den) :
    ∃ size : Nat, decimalPoint num den = (size : Int) + 1 - 400 ∧
      den * Nat.pow 10 size ≤ num * Nat.pow 10 400 := by
  unfold decimalPoint
  generalize num * Nat.pow 10 400 = scaled at *
  have hpos : 0 < (Nat.toDigits 10 (scaled / den)).length := Nat.length_toDigits_pos
  refine ⟨(Nat.toDigits 10 (scaled / den)).length - 1, by omega, ?_⟩
  have hle : Nat.pow 10 ((Nat.toDigits 10 (scaled / den)).length - 1) ≤ scaled / den := by
    rcases Nat.eq_zero_or_pos ((Nat.toDigits 10 (scaled / den)).length - 1) with h | h
    · rw [h]
      exact (Nat.one_le_div_iff hden).mpr hnum
    · refine Nat.le_of_not_lt fun hlt => ?_
      have := (Nat.length_toDigits_le_iff (by decide) h).mpr hlt
      omega
  calc den * Nat.pow 10 ((Nat.toDigits 10 (scaled / den)).length - 1)
      ≤ den * (scaled / den) := Nat.mul_le_mul_left _ hle
    _ ≤ scaled := Nat.mul_div_le _ _

/-- Eighteen digits are enough to show some of the magnitude. -/
theorem cut_ne_zero {num den : Nat} (hnum : den ≤ num * Nat.pow 10 400) (hden : 0 < den) :
    num * Nat.pow 10 ((17 + 1 : Nat) - decimalPoint num den).toNat / den ≠ 0 := by
  obtain ⟨size, hpoint, hle⟩ := le_of_decimalPoint hnum hden
  have hscale (n : Nat) : 0 < Nat.pow 10 n := Nat.pow_pos (by decide)
  have hgoal : den ≤ num * Nat.pow 10 ((17 + 1 : Nat) - decimalPoint num den).toNat := by
    rw [hpoint]
    rcases Nat.lt_or_ge size 417 with h | h
    · have hshift : ((17 + 1 : Nat) - ((size : Int) + 1 - 400)).toNat = 417 - size := by omega
      have hsplit : Nat.pow 10 417 = Nat.pow 10 size * Nat.pow 10 (417 - size) := by
        rw [Nat.pow_eq, Nat.pow_eq, Nat.pow_eq, ← Nat.pow_add, Nat.add_sub_cancel' (Nat.le_of_lt h)]
      rw [hshift]
      refine Nat.le_of_mul_le_mul_right ?_ (hscale 400)
      calc den * Nat.pow 10 400 ≤ den * Nat.pow 10 417 :=
            Nat.mul_le_mul_left _ (Nat.pow_le_pow_right (by decide) (by decide))
        _ = den * Nat.pow 10 size * Nat.pow 10 (417 - size) := by rw [hsplit, Nat.mul_assoc]
        _ ≤ num * Nat.pow 10 400 * Nat.pow 10 (417 - size) := Nat.mul_le_mul_right _ hle
        _ = num * Nat.pow 10 (417 - size) * Nat.pow 10 400 := Nat.mul_right_comm _ _ _
    · have hshift : ((17 + 1 : Nat) - ((size : Int) + 1 - 400)).toNat = 0 := by omega
      rw [hshift]
      refine Nat.le_of_mul_le_mul_right ?_ (hscale 400)
      calc den * Nat.pow 10 400 ≤ den * Nat.pow 10 size :=
            Nat.mul_le_mul_left _ (Nat.pow_le_pow_right (by decide) (by omega))
        _ ≤ num * Nat.pow 10 400 := hle
        _ = num * Nat.pow 10 0 * Nat.pow 10 400 := by rw [show Nat.pow 10 0 = 1 from rfl, Nat.mul_one]
  have := (Nat.one_le_div_iff hden).mpr hgoal
  omega

/-- The digits found are those of a number other than zero: of a candidate that rounds to the
magnitude, or of the magnitude itself when the digits run out. -/
theorem search_ne_zero (tie : Tie) {rank num den : Nat} {point : Int} (hrank : rank ≠ 0)
    (fuel count : Nat) (hcut : num * Nat.pow 10 ((fuel + count : Nat) - point).toNat / den ≠ 0) :
    (search tie rank num den point fuel count).1 ≠ 0 := by
  induction fuel generalizing count with
  | zero => simpa [search] using hcut
  | succ fuel ih =>
    unfold search
    split
    · next d hd => exact candidate?_ne_zero hrank hd
    · refine ih (count + 1) ?_
      rwa [show fuel + (count + 1) = fuel + 1 + count by omega]

theorem dropZeros_head {c : Char} (hc : c ≠ '0') (ds : List Char) :
    ∃ ds', dropZeros (c :: ds) = c :: ds' := by
  have hkeep : (ds.reverse ++ [c]).dropWhile (· == '0') =
      ds.reverse.dropWhile (· == '0') ++ [c] := by
    rw [List.dropWhile_append]
    split
    · next h =>
      have : ds.reverse.dropWhile (· == '0') = [] := by simpa using h
      simp [this, hc]
    · rfl
  refine ⟨(ds.reverse.dropWhile (· == '0')).reverse, ?_⟩
  rw [dropZeros, List.reverse_cons, hkeep, List.reverse_append]
  rfl

/-- The numeral that is made of what a search found. It is stated apart, since the search is long
and the kernel would carry it out where the numeral is taken to pieces. -/
theorem numeral_of_search {tie : Tie} {rank num den fuel count n size : Nat} {point : Int}
    (h : search tie rank num den point fuel count = (n, size)) :
    ∃ place, (match search tie rank num den point fuel count with
      | (d, count) =>
        let ds := Nat.toDigits 10 d
        (⟨dropZeros ds, point + ds.length - count⟩ : Numeral)) =
      ⟨dropZeros (Text.natDigits n), place⟩ := by
  rw [h]
  exact ⟨_, rfl⟩

theorem shortest_found (tie : Tie) {rank : Nat} (h : rank ≠ 0) :
    ∃ n point, shortest tie rank = ⟨dropZeros (Text.natDigits n), point⟩ ∧ n ≠ 0 := by
  have hden : 0 < Nat.pow 2 (-exponent rank).toNat := Nat.pow_pos (by decide)
  have hnum : Nat.pow 2 (-exponent rank).toNat ≤
      significand rank * Nat.pow 2 (exponent rank).toNat * Nat.pow 10 400 := by
    have hge := exponent_ge rank
    have height (n : Nat) : Nat.pow 2 (3 * n) ≤ Nat.pow 10 n := by
      rw [Nat.pow_eq, Nat.pow_mul]
      exact Nat.pow_le_pow_left (by decide) n
    have hsmall : Nat.pow 2 (-exponent rank).toNat ≤ Nat.pow 10 400 :=
      Nat.le_trans (Nat.pow_le_pow_right (by decide) (by omega)) (height 400)
    have hpos : 0 < significand rank * Nat.pow 2 (exponent rank).toNat :=
      Nat.mul_pos (significand_pos h) (Nat.pow_pos (by decide))
    exact Nat.le_trans hsmall (Nat.le_mul_of_pos_left _ hpos)
  have hfound := search_ne_zero tie h 17 1 (cut_ne_zero hnum hden)
  generalize hsearch : search tie rank _ _ _ 17 1 = found at hfound
  obtain ⟨n, size⟩ := found
  obtain ⟨point, hnumeral⟩ := numeral_of_search hsearch
  refine ⟨n, point, ?_, hfound⟩
  rw [shortest, if_neg h]
  exact hnumeral

/-- The first digit of a magnitude other than zero is not zero. -/
theorem shortest_digits (tie : Tie) {rank : Nat} (h : rank ≠ 0) :
    ∃ c ds, (shortest tie rank).digits = c :: ds ∧ c ≠ '0' ∧
      ∀ d ∈ c :: ds, d.isDigit = true := by
  obtain ⟨n, point, hshortest, hn⟩ := shortest_found tie h
  obtain ⟨c, ds, hds, hc⟩ := Text.natDigits_head hn
  obtain ⟨ds', hds'⟩ := dropZeros_head hc ds
  refine ⟨c, ds', ?_, hc, ?_⟩
  · rw [hshortest, hds]
    exact hds'
  · intro d hd
    have hmem : d ∈ dropZeros (c :: ds) := hds'.symm ▸ hd
    have hsub : d ∈ (c :: ds).reverse := List.dropWhile_sublist _ |>.mem (List.mem_reverse.mp hmem)
    have hall : ∀ d ∈ c :: ds, d.isDigit = true := by
      rw [← hds]
      exact (Text.isDigits_iff.mp (Text.isDigits_natDigits _)).2
    exact hall d (List.mem_reverse.mp hsub)

end Scriptorium.Decimal

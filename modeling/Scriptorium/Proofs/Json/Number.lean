import Scriptorium.Json.Number
import Scriptorium.Proofs.Text.Numeral

/-!
# Integers as numerals of documents

The numeral of an integer denotes it again, and the digits of a natural number
that fits a word denote that number.
-/

namespace Scriptorium.Json

open Text

theorem ofText_natDigits (n : Nat) :
    Numeral.ofText (natDigits n) = ⟨false, natDigits n, [], 0, true⟩ := by
  obtain ⟨hne, hall⟩ := isDigits_iff.mp (isDigits_natDigits n)
  have htake := takeWhile_digits hall (show EndsDigits [] by simp [EndsDigits])
  have hdrop := dropWhile_digits hall (show EndsDigits [] by simp [EndsDigits])
  rw [List.append_nil] at htake hdrop
  obtain ⟨c, ds, hds⟩ := List.exists_cons_of_ne_nil hne
  have hc : c ≠ '-' := by
    rintro rfl
    exact absurd (hall '-' (hds ▸ List.mem_cons_self)) (by decide)
  have hunsigned : unsigned (natDigits n) = natDigits n := by
    rw [hds]
    unfold unsigned
    split
    · next heq => exact absurd (List.cons.inj heq).1 hc
    · rfl
  have hhead : ((natDigits n).head? == some '-') = false := by simp [hds, hc]
  unfold Numeral.ofText
  simp only [hunsigned, htake, hdrop, hhead]
  rfl

theorem ofText_minus (n : Nat) :
    Numeral.ofText ('-' :: natDigits n) = ⟨true, natDigits n, [], 0, true⟩ := by
  have hall := (isDigits_iff.mp (isDigits_natDigits n)).2
  have htake := takeWhile_digits hall (show EndsDigits [] by simp [EndsDigits])
  have hdrop := dropWhile_digits hall (show EndsDigits [] by simp [EndsDigits])
  rw [List.append_nil] at htake hdrop
  unfold Numeral.ofText
  simp only [unsigned, htake, hdrop]
  rfl

theorem number?_natDigits {n : Nat} (h : n < wordBound) :
    number? (natDigits n) = some (.natural n) := by
  simp [number?, ofText_natDigits, digitsValue_natDigits, h]

/-- The digits of a number that does not fit a word denote a decimal. -/
theorem number?_natDigits_large {n : Nat} (h : ¬n < wordBound) (m : Nat) :
    number? (natDigits n) ≠ some (.natural m) := by
  simp [number?, ofText_natDigits, digitsValue_natDigits, h]

theorem number?_numeral (n : Int64) :
    number? (Integer.numeral n) =
      some (if n.toInt < 0 then .negative n else .natural n.toInt.toNat) := by
  have hlow : -2 ^ 63 ≤ n.toInt := Int64.le_toInt n
  have hhigh : n.toInt < 2 ^ 63 := Int64.toInt_lt n
  have hsmall : n.toInt.natAbs < wordBound := by
    unfold wordBound UInt64.size
    omega
  rw [Integer.numeral, intNumeral]
  split
  · next hneg =>
    have hvalue : -(n.toInt.natAbs : Int) = n.toInt := by omega
    have hzero : n ≠ 0 := by
      rintro rfl
      exact absurd hneg (by decide)
    simp only [number?, ofText_minus, digitsValue_natDigits, hsmall, hvalue, Integer.ofInt?_toInt,
      hzero, if_true, if_false, decide_true, Bool.and_true]
  · next hpos =>
    have habs : n.toInt.natAbs = n.toInt.toNat := by omega
    rw [number?_natDigits hsmall, habs]

theorem int64?_ofInt64 (n : Int64) : (ofInt64 n).int64? = some n := by
  rw [ofInt64, int64?, number?_numeral]
  split
  · next h =>
    split at h
    · cases h
    · next hpos =>
      cases h
      have : ((n.toInt.toNat : Nat) : Int) = n.toInt := by omega
      rw [this, Integer.ofInt?_toInt]
  · next h =>
    split at h <;> cases h
    rfl
  · next hnatural hnegative =>
    by_cases hneg : n.toInt < 0
    · rw [if_pos hneg] at hnegative
      exact absurd rfl (hnegative n)
    · rw [if_neg hneg] at hnatural
      exact absurd rfl (hnatural _)

/-- A word below the bound is read from its digits. -/
theorem nat?_ofNat_of_lt {bound n : Nat} (hword : n < wordBound) (h : n < bound) :
    (ofNat n).nat? bound = some n := by
  simp only [ofNat, nat?, number?_natDigits hword, h, if_true]

theorem nat?_ofNat {bound n m : Nat} (h : (ofNat n).nat? bound = some m) : m = n := by
  rw [ofNat, nat?] at h
  by_cases hn : n < wordBound
  · rw [number?_natDigits hn] at h
    simp only [Option.ite_none_right_eq_some] at h
    exact (Option.some.inj h.2).symm
  · split at h
    · next heq => exact absurd heq (number?_natDigits_large hn _)
    · cases h

end Scriptorium.Json

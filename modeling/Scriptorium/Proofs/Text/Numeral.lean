import Mathlib.Data.List.Induction
import Mathlib.Tactic.IntervalCases
import Scriptorium.Text.Numeral

/-!
# Numerals that are written denote what they were written for

The digits of a natural number are a run of digits that denotes it, and the
numeral of an integer is an integer numeral that denotes it. In a longer text a
run of digits is cut off where another character stands. An identifier is a
character that may begin one and characters that may continue it.
-/

namespace Scriptorium.Text

/-- A run of digits ends here. -/
def EndsDigits (rest : List Char) : Prop := ∀ c ∈ rest.head?, c.isDigit = false

theorem takeWhile_digits {ds rest : List Char} (hd : ∀ c ∈ ds, c.isDigit = true)
    (hr : EndsDigits rest) : (ds ++ rest).takeWhile Char.isDigit = ds := by
  rw [List.takeWhile_append_of_pos hd]
  cases rest with
  | nil => simp
  | cons c rest => simp [hr c rfl]

theorem dropWhile_digits {ds rest : List Char} (hd : ∀ c ∈ ds, c.isDigit = true)
    (hr : EndsDigits rest) : (ds ++ rest).dropWhile Char.isDigit = rest := by
  rw [List.dropWhile_append_of_pos hd]
  cases rest with
  | nil => simp
  | cons c rest => simp [hr c rfl]

theorem isDigits_iff {ds : List Char} :
    isDigits ds = true ↔ ds ≠ [] ∧ ∀ c ∈ ds, c.isDigit = true := by
  simp [isDigits]

theorem isDecimal_iff {numeral : List Char} (h : isDecimal numeral = true) :
    ∃ whole fraction, unsigned numeral = whole ++ '.' :: fraction ∧
      (∀ c ∈ whole, c.isDigit = true) ∧ isDigits fraction = true := by
  unfold isDecimal at h
  dsimp only at h
  split at h
  · next c fraction hdrop =>
    have hc : c = '.' := by
      have := List.head?_dropWhile_not (fun c => c != '.') (unsigned numeral)
      rw [hdrop] at this
      simpa using this
    subst hc
    refine ⟨(unsigned numeral).takeWhile (· != '.'), fraction, ?_, ?_, ?_⟩
    · rw [← hdrop]
      exact List.takeWhile_append_dropWhile.symm
    · simp_all
    · simp_all
  · cases h

theorem isDigits_natDigits (n : Nat) : isDigits (natDigits n) = true := by
  have hne : natDigits n ≠ [] := Nat.toDigits_ne_nil
  have hall : ∀ c ∈ natDigits n, c.isDigit = true := fun c hc =>
    Nat.isDigit_of_mem_toDigits (by decide) (by decide) hc
  simpa [isDigits, hne] using hall

theorem digitsValue_natDigits (n : Nat) : digitsValue (natDigits n) = n := by
  have := Nat.ofDigitChars_ten_toDigits (n := n)
  rwa [Nat.ofDigitChars_eq_foldl] at this

/-- The digits of a number other than zero do not begin with zero. -/
theorem natDigits_head {n : Nat} (h : n ≠ 0) : ∃ c ds, natDigits n = c :: ds ∧ c ≠ '0' := by
  induction n using Nat.strongRecOn with
  | ind n ih =>
    unfold natDigits at ih ⊢
    rw [Nat.toDigits_eq_if (by decide)]
    split
    · next hlt =>
      refine ⟨_, _, rfl, ?_⟩
      have hdigit : ∀ n < 10, n ≠ 0 → Nat.digitChar n ≠ '0' := by decide
      exact hdigit n hlt h
    · obtain ⟨c, ds, hds, hc⟩ := ih (n / 10) (by omega) (by omega)
      exact ⟨c, ds ++ [(n % 10).digitChar], by rw [hds]; rfl, hc⟩

theorem isInteger_intNumeral (n : Int) : isInteger (intNumeral n) = true := by
  have hdigits := isDigits_natDigits n.natAbs
  unfold intNumeral
  split
  · exact hdigits
  · cases hds : natDigits n.natAbs with
    | nil => rw [hds] at hdigits; cases hdigits
    | cons c ds =>
      rw [hds] at hdigits
      have hc : c ≠ '-' := by
        rintro rfl
        simp [isDigits] at hdigits
      unfold isInteger unsigned
      split
      · next h => exact absurd (List.cons.inj h).1 hc
      · exact hdigits

theorem integerValue_intNumeral (n : Int) : integerValue (intNumeral n) = n := by
  have hvalue := digitsValue_natDigits n.natAbs
  unfold intNumeral
  split
  · simp only [integerValue, hvalue]
    omega
  · unfold integerValue
    split
    · next ds h =>
      have hdigits := isDigits_natDigits n.natAbs
      rw [h] at hdigits
      simp [isDigits] at hdigits
    · rw [hvalue]
      omega

/-- What can be checked of the ten digits holds of every digit. -/
theorem of_isDigit {p : Char → Bool}
    (hall : ['0', '1', '2', '3', '4', '5', '6', '7', '8', '9'].all p = true) {d : Char}
    (h : d.isDigit = true) : p d = true := by
  have hmem : d ∈ ['0', '1', '2', '3', '4', '5', '6', '7', '8', '9'] := by
    simp only [Char.isDigit, Bool.and_eq_true, decide_eq_true_eq, ge_iff_le] at h
    have hlow : 48 ≤ d.toNat := UInt32.le_iff_toNat_le.mp h.1
    have hhigh : d.toNat ≤ 57 := UInt32.le_iff_toNat_le.mp h.2
    have hd : d = Char.ofNat d.toNat := (Char.ofNat_toNat d).symm
    clear h
    generalize d.toNat = n at hd hlow hhigh
    subst hd
    interval_cases n <;> decide
  exact List.all_eq_true.mp hall d hmem

theorem natDigits_of_isDigit {d : Char} (h : d.isDigit = true) :
    digitValue d < 10 ∧ natDigits (digitValue d) = [d] :=
  of_decide_eq_true (of_isDigit
    (p := fun d => decide (digitValue d < 10 ∧ natDigits (digitValue d) = [d])) (by decide) h)

/-- Digits that do not begin with zero are those of their number. -/
theorem natDigits_digitsValue {digits : List Char} (hne : digits ≠ [])
    (hdigits : ∀ c ∈ digits, c.isDigit = true) (hzero : digits.head? ≠ some '0') :
    0 < digitsValue digits ∧ natDigits (digitsValue digits) = digits := by
  induction digits using List.reverseRecOn with
  | nil => exact absurd rfl hne
  | append_singleton ds d ih =>
    have hvalue : digitsValue (ds ++ [d]) = 10 * digitsValue ds + digitValue d := by
      simp [digitsValue]
    obtain ⟨hlt, hself⟩ := natDigits_of_isDigit (hdigits d (by simp))
    rw [hvalue]
    by_cases hds : ds = []
    · subst hds
      have hpos : digitValue d ≠ 0 := by
        intro hnone
        rw [hnone] at hself
        have hd : '0' = d := (List.cons.inj hself).1
        exact hzero (by rw [← hd]; rfl)
      simp only [digitsValue, List.foldl_nil, Nat.mul_zero, Nat.zero_add, List.nil_append]
      exact ⟨Nat.pos_of_ne_zero hpos, hself⟩
    · have hhead : (ds ++ [d]).head? = ds.head? := by
        cases ds with
        | nil => exact absurd rfl hds
        | cons c ds => rfl
      obtain ⟨hpos, hprefix⟩ := ih hds (fun c hc => hdigits c (by simp [hc])) (hhead ▸ hzero)
      refine ⟨by omega, ?_⟩
      unfold natDigits at hself hprefix ⊢
      rw [← Nat.toDigits_append_toDigits (by decide) hpos hlt, hprefix, hself]

/-- The numerals without sign and leading zeros are those of the numbers above zero. -/
theorem isPositiveInteger_iff {index : List Char} :
    isPositiveInteger index = true ↔ ∃ k, 0 < k ∧ index = natDigits k := by
  constructor
  · intro h
    unfold isPositiveInteger at h
    split at h
    · cases h
    · next c cs =>
      simp only [Bool.and_eq_true, bne_iff_ne, ne_eq] at h
      obtain ⟨⟨hminus, hzero⟩, hinteger⟩ := h
      have hunsigned : unsigned (c :: cs) = c :: cs := by
        unfold unsigned
        split
        · next heq => exact absurd (List.cons.inj heq).1 hminus
        · rfl
      rw [isInteger, hunsigned, isDigits_iff] at hinteger
      obtain ⟨hpos, hself⟩ := natDigits_digitsValue hinteger.1 hinteger.2 (by simpa using hzero)
      exact ⟨_, hpos, hself.symm⟩
  · rintro ⟨k, hpos, rfl⟩
    obtain ⟨c, ds, hds, hzero⟩ := natDigits_head (Nat.ne_of_gt hpos)
    have hdigits := isDigits_natDigits k
    have hinteger := isInteger_intNumeral k
    have hminus : c ≠ '-' := by
      rintro rfl
      simp [hds, isDigits, Char.isDigit] at hdigits
    have hnumeral : intNumeral k = natDigits k := by simp [intNumeral]
    rw [hnumeral, hds] at hinteger
    rw [hds]
    simp [isPositiveInteger, hminus, hzero, hinteger]

theorem unsigned_append {sign body : List Char} (hsign : sign = [] ∨ sign = ['-'])
    (hbody : body.head? ≠ some '-') : unsigned (sign ++ body) = body := by
  rcases hsign with rfl | rfl
  · unfold unsigned
    split
    · next cs heq =>
      obtain rfl : body = '-' :: cs := heq
      exact absurd rfl hbody
    · rfl
  · rfl

theorem head?_ne_of_isDigits {digits : List Char} (h : ∀ c ∈ digits, c.isDigit = true) :
    digits.head? ≠ some '-' := by
  intro hhead
  have := h '-' (List.mem_of_head? hhead)
  simp [Char.isDigit] at this

theorem isInteger_append {sign digits : List Char} (hsign : sign = [] ∨ sign = ['-'])
    (hdigits : isDigits digits = true) : isInteger (sign ++ digits) = true := by
  have hall := (isDigits_iff.mp hdigits).2
  rw [isInteger, unsigned_append hsign (head?_ne_of_isDigits hall), hdigits]

theorem isDecimal_append {sign whole fraction : List Char} (hsign : sign = [] ∨ sign = ['-'])
    (hwhole : ∀ c ∈ whole, c.isDigit = true) (hfraction : isDigits fraction = true) :
    isInteger (sign ++ whole ++ '.' :: fraction) = false ∧
      isDecimal (sign ++ whole ++ '.' :: fraction) = true := by
  have hhead : (whole ++ '.' :: fraction).head? ≠ some '-' := by
    cases whole with
    | nil => simp
    | cons c cs =>
      have hne := head?_ne_of_isDigits hwhole
      exact hne
  have hpoint : ∀ c ∈ whole, (c != '.') = true := fun c hc =>
    of_isDigit (p := fun d => d != '.') (by decide) (hwhole c hc)
  have hunsigned := unsigned_append hsign hhead
  rw [← List.append_assoc] at hunsigned
  constructor
  · rw [isInteger, hunsigned]
    simp [isDigits, Char.isDigit]
  · simp only [isDecimal, hunsigned, List.dropWhile_append_of_pos hpoint,
      List.takeWhile_append_of_pos hpoint]
    simpa [hfraction] using hwhole

/-! ## Identifiers -/

theorem isIdentifierPart_of_start {c : Char} (h : isIdentifierStart c = true) :
    isIdentifierPart c = true := by
  simp only [isIdentifierStart, isIdentifierPart, Char.isAlphanum, Bool.or_eq_true] at h ⊢
  exact h.imp .inl id

theorem isIdentifier_spelled {name : List Char} (h : isIdentifier name = true) :
    ∃ c cs, name = c :: cs ∧ isIdentifierStart c = true ∧
      ∀ d ∈ cs, isIdentifierPart d = true := by
  unfold isIdentifier at h
  split at h
  · cases h
  · next c cs =>
    obtain ⟨hstart, hrest⟩ := Bool.and_eq_true_iff.mp h
    exact ⟨c, cs, rfl, hstart, List.all_eq_true.mp hrest⟩

theorem isIdentifierPart_of_mem {name : List Char} {c : Char} (h : isIdentifier name = true)
    (hc : c ∈ name) : isIdentifierPart c = true := by
  obtain ⟨d, ds, rfl, hstart, hpart⟩ := isIdentifier_spelled h
  rcases List.mem_cons.mp hc with rfl | hc
  · exact isIdentifierPart_of_start hstart
  · exact hpart c hc

end Scriptorium.Text

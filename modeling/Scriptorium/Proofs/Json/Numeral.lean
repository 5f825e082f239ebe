import Scriptorium.Json.Reader
import Scriptorium.Proofs.Decimal.Shortest

/-!
# Numerals are cut off where they end

A numeral of a document is a sign, digits that do not begin with a needless
zero, a fraction and an exponent. In a longer text it ends where none of the
characters that could go on with it stands. The digits of natural numbers, the
numerals of integers and the marked spelling of decimals are such numerals.
-/

namespace Scriptorium.Json

open Text

/-- A numeral ends here: no digit, point or exponent stands at the front. -/
def EndsNumeral (rest : List Char) : Prop :=
  ∀ c ∈ rest.head?, c.isDigit = false ∧ c ≠ '.' ∧ c ≠ 'e' ∧ c ≠ 'E'

theorem EndsNumeral.endsDigits {rest : List Char} (h : EndsNumeral rest) : EndsDigits rest :=
  fun c hc => (h c hc).1

/-- The text is a numeral, and is cut off as one where it ends. -/
def IsNumeral (cs : List Char) : Prop :=
  ∀ rest, EndsNumeral rest → cutNumeral? (cs ++ rest) = some (cs, rest)

/-- Digits that do not begin with a needless zero. -/
def IsWhole (ds : List Char) : Prop :=
  ds = ['0'] ∨ isDigits ds = true ∧ ds.head? ≠ some '0'

theorem cutWhole?_append {ds rest : List Char} (h : IsWhole ds) (hrest : EndsDigits rest) :
    cutWhole? (ds ++ rest) = some (ds, rest) := by
  rcases h with rfl | ⟨hdigits, hzero⟩
  · rfl
  · obtain ⟨hne, hall⟩ := isDigits_iff.mp hdigits
    obtain ⟨c, tail, rfl⟩ := List.exists_cons_of_ne_nil hne
    have hc : c ≠ '0' := by simpa using hzero
    have htake := takeWhile_digits hall hrest
    have hdrop := dropWhile_digits hall hrest
    unfold cutWhole?
    split
    · next heq => exact absurd (List.cons.inj heq).1 hc
    · simp only [cutDigits, htake, hdrop]
      rfl

/-- A point with digits behind it, or nothing. -/
def IsFraction (cs : List Char) : Prop :=
  cs = [] ∨ ∃ ds, cs = '.' :: ds ∧ isDigits ds = true

theorem cutFraction?_append {fraction rest : List Char} (h : IsFraction fraction)
    (hrest : EndsDigits rest) (hpoint : rest.head? ≠ some '.') :
    cutFraction? (fraction ++ rest) = some (fraction, rest) := by
  rcases h with rfl | ⟨ds, rfl, hdigits⟩
  · rw [List.nil_append]
    unfold cutFraction?
    split
    · exact absurd rfl hpoint
    · rfl
  · obtain ⟨hne, hall⟩ := isDigits_iff.mp hdigits
    have htake := takeWhile_digits hall hrest
    have hdrop := dropWhile_digits hall hrest
    simp [cutFraction?, cutDigits, htake, hdrop, hne]

/-- The letter e with a sign and digits behind it, or nothing. -/
def IsExponent (cs : List Char) : Prop :=
  cs = [] ∨ ∃ sign ds, cs = 'e' :: sign :: ds ∧ (sign = '-' ∨ sign = '+') ∧ isDigits ds = true

theorem cutExponent?_append {exponent rest : List Char} (h : IsExponent exponent)
    (hrest : EndsNumeral rest) : cutExponent? (exponent ++ rest) = some (exponent, rest) := by
  rcases h with rfl | ⟨sign, ds, rfl, hsign, hdigits⟩
  · cases rest with
    | nil => rfl
    | cons c rest =>
      obtain ⟨-, -, he, hE⟩ := hrest c rfl
      simp [cutExponent?, he, hE]
  · obtain ⟨hne, hall⟩ := isDigits_iff.mp hdigits
    have htake := takeWhile_digits hall hrest.endsDigits
    have hdrop := dropWhile_digits hall hrest.endsDigits
    rcases hsign with rfl | rfl <;>
      simp [cutExponent?, cutExponentSign, cutMinus, cutDigits, htake, hdrop, hne]

/-- The parts of a numeral make one. -/
theorem isNumeral_of_parts {sign whole fraction exponent : List Char}
    (hsign : sign = [] ∨ sign = ['-']) (hwhole : IsWhole whole) (hfraction : IsFraction fraction)
    (hexponent : IsExponent exponent) : IsNumeral (sign ++ whole ++ fraction ++ exponent) := by
  intro rest hrest
  have hafter : EndsDigits (exponent ++ rest) ∧ (exponent ++ rest).head? ≠ some '.' := by
    rcases hexponent with rfl | ⟨s, ds, rfl, -, -⟩
    · exact ⟨hrest.endsDigits, fun h => (hrest '.' h).2.1 rfl⟩
    · exact ⟨fun c hc => by obtain rfl : 'e' = c := by simpa using hc
                            rfl, by simp⟩
  have hpoint : EndsDigits (fraction ++ (exponent ++ rest)) := by
    rcases hfraction with rfl | ⟨ds, rfl, -⟩
    · exact hafter.1
    · exact fun c hc => by
        obtain rfl : '.' = c := by simpa using hc
        rfl
  have hminus : cutMinus (sign ++ (whole ++ (fraction ++ (exponent ++ rest)))) =
      (sign, whole ++ (fraction ++ (exponent ++ rest))) := by
    rcases hsign with rfl | rfl
    · rw [List.nil_append]
      unfold cutMinus
      split
      · next tail heq =>
        have hhead : (whole ++ (fraction ++ (exponent ++ rest))).head? = some '-' := by
          rw [heq]; rfl
        rcases hwhole with rfl | ⟨hdigits, -⟩
        · simp at hhead
        · obtain ⟨hne, hall⟩ := isDigits_iff.mp hdigits
          obtain ⟨c, ds, rfl⟩ := List.exists_cons_of_ne_nil hne
          obtain rfl : c = '-' := by simpa using hhead
          exact absurd (hall '-' List.mem_cons_self) (by decide)
      · rfl
    · rfl
  simp only [List.append_assoc] at hminus ⊢
  simp only [cutNumeral?, hminus, Option.bind_eq_bind, Option.bind_some,
    cutWhole?_append hwhole hpoint, cutFraction?_append hfraction hafter.1 hafter.2,
    cutExponent?_append hexponent hrest]
  simp

theorem isWhole_natDigits (n : Nat) : IsWhole (natDigits n) := by
  by_cases hn : n = 0
  · subst hn
    exact .inl rfl
  · refine .inr ⟨isDigits_natDigits n, ?_⟩
    obtain ⟨c, ds, hds, hc⟩ := natDigits_head hn
    simpa [hds] using hc

theorem isNumeral_natDigits (n : Nat) : IsNumeral (natDigits n) := by
  have := isNumeral_of_parts (.inl rfl) (isWhole_natDigits n) (.inl rfl) (.inl rfl)
  simpa using this

theorem isNumeral_intNumeral (n : Int) : IsNumeral (intNumeral n) := by
  have hwhole := isWhole_natDigits n.natAbs
  unfold intNumeral
  split
  · have := isNumeral_of_parts (.inr rfl) hwhole (.inl rfl) (.inl rfl)
    simpa using this
  · have := isNumeral_of_parts (.inl rfl) hwhole (.inl rfl) (.inl rfl)
    simpa using this

/-- The digits of a numeral begin with a zero only where zero itself is written. -/
structure Canonical (n : Decimal.Numeral) : Prop where
  digits : isDigits n.digits = true
  zero : n.digits.head? = some '0' → n.digits = ['0'] ∧ n.point = 1

theorem canonical_shortest (tie : Decimal.Tie) (rank : Nat) :
    Canonical (Decimal.shortest tie rank) := by
  by_cases hrank : rank = 0
  · rw [Decimal.shortest, if_pos hrank]
    exact ⟨rfl, fun _ => ⟨rfl, rfl⟩⟩
  · obtain ⟨c, ds, hds, hc, hall⟩ := Decimal.shortest_digits tie hrank
    rw [← hds] at hall
    refine ⟨isDigits_iff.mpr ⟨by simp [hds], hall⟩, fun h => ?_⟩
    rw [hds] at h
    exact absurd (Option.some.inj h) hc

namespace Canonical

variable {n : Decimal.Numeral}

theorem isWhole (h : Canonical n) : IsWhole n.digits := by
  by_cases hzero : n.digits.head? = some '0'
  · exact .inl (h.zero hzero).1
  · exact .inr ⟨h.digits, hzero⟩

/-- The digits may be followed by zeros up to the point. -/
theorem isWhole_zeros (h : Canonical n) :
    IsWhole (n.digits ++ Decimal.zeros (n.point - n.digits.length).toNat) := by
  by_cases hzero : n.digits.head? = some '0'
  · obtain ⟨hdigits, hone⟩ := h.zero hzero
    rw [hdigits, hone]
    exact .inl rfl
  · obtain ⟨hne, hall⟩ := isDigits_iff.mp h.digits
    refine .inr ⟨isDigits_iff.mpr ⟨by simp [hne], ?_⟩, ?_⟩
    · intro c hc
      rcases List.mem_append.mp hc with hc | hc
      · exact hall c hc
      · rw [List.eq_of_mem_replicate hc]
        rfl
    · obtain ⟨c, ds, hds⟩ := List.exists_cons_of_ne_nil hne
      rw [hds] at hzero ⊢
      exact hzero

/-- Where the point stands among the digits, there are some on either side. -/
theorem positional_between (h : Canonical n) (hlow : 0 < n.point)
    (hhigh : n.point < n.digits.length) :
    IsWhole (n.digits.take n.point.toNat) ∧ isDigits (n.digits.drop n.point.toNat) = true := by
  obtain ⟨hne, hall⟩ := isDigits_iff.mp h.digits
  have htake : n.digits.take n.point.toNat ≠ [] := by
    simp [hne]
    omega
  have hdrop : n.digits.drop n.point.toNat ≠ [] := by
    simp
    omega
  refine ⟨.inr ⟨isDigits_iff.mpr ⟨htake, fun c hc => hall c (List.mem_of_mem_take hc)⟩, ?_⟩,
    isDigits_iff.mpr ⟨hdrop, fun c hc => hall c (List.mem_of_mem_drop hc)⟩⟩
  intro hzero
  rw [List.head?_take, if_neg (by omega)] at hzero
  obtain ⟨hdigits, hone⟩ := h.zero hzero
  rw [hdigits, hone] at hhigh
  simp at hhigh

theorem isFraction_zeros (h : Canonical n) (count : Nat) :
    IsFraction ('.' :: (Decimal.zeros count ++ n.digits)) := by
  obtain ⟨hne, hall⟩ := isDigits_iff.mp h.digits
  refine .inr ⟨_, rfl, isDigits_iff.mpr ⟨by simp [hne], ?_⟩⟩
  intro c hc
  rcases List.mem_append.mp hc with hc | hc
  · rw [List.eq_of_mem_replicate hc]
    rfl
  · exact hall c hc

/-- The first digit stands alone in front of the point where there is an exponent. -/
theorem mantissa (h : Canonical n) :
    ∃ whole fraction, (match n.digits with
      | d :: e :: rest => d :: '.' :: e :: rest
      | ds => ds) = whole ++ fraction ∧ IsWhole whole ∧ IsFraction fraction := by
  have hwhole := h.isWhole
  obtain ⟨-, hall⟩ := isDigits_iff.mp h.digits
  split
  · next d e rest hdigits =>
    rw [hdigits] at hall hwhole
    refine ⟨[d], '.' :: e :: rest, rfl, ?_, .inr ⟨_, rfl, isDigits_iff.mpr ⟨by simp, ?_⟩⟩⟩
    · refine .inr ⟨isDigits_iff.mpr ⟨by simp, by simpa using hall d List.mem_cons_self⟩, ?_⟩
      rcases hwhole with hzero | ⟨-, hhead⟩
      · cases hzero
      · exact hhead
    · exact fun c hc => hall c (List.mem_cons_of_mem _ hc)
  · exact ⟨_, [], (List.append_nil _).symm, hwhole, .inl rfl⟩

/-- The marked spelling is a whole part, a fraction and an exponent. -/
theorem marked_parts (h : Canonical n) :
    ∃ whole fraction exponent, n.marked = whole ++ fraction ++ exponent ∧ IsWhole whole ∧
      IsFraction fraction ∧ IsExponent exponent := by
  have hsize : 0 < n.digits.length := List.length_pos_iff.mpr (isDigits_iff.mp h.digits).1
  unfold Decimal.Numeral.marked Decimal.Numeral.positional
  dsimp only
  split
  · next hnear =>
    have hbehind : (n.digits.length : Int) ≤ n.point := by simp at hnear; omega
    rw [if_neg (by omega), if_pos (by omega)]
    exact ⟨_, ['.', '0'], [], (List.append_nil _).symm, h.isWhole_zeros,
      .inr ⟨['0'], rfl, rfl⟩, .inl rfl⟩
  split
  · next hfar hnear =>
    split
    · exact ⟨['0'], _, [], (List.append_nil _).symm, .inl rfl, h.isFraction_zeros _, .inl rfl⟩
    · next hlow =>
      have hhigh : n.point < n.digits.length := by simp at hfar hnear; omega
      obtain ⟨hwhole, hfraction⟩ := h.positional_between (by omega) hhigh
      rw [if_neg (by omega)]
      exact ⟨_, _, [], (List.append_nil _).symm, hwhole, .inr ⟨_, rfl, hfraction⟩, .inl rfl⟩
  · obtain ⟨whole, fraction, hmantissa, hwhole, hfraction⟩ := h.mantissa
    refine ⟨whole, fraction, _, congrArg (· ++ _) hmantissa, hwhole, hfraction, ?_⟩
    refine .inr ⟨_, _, rfl, ?_, isDigits_natDigits _⟩
    split
    · exact .inl rfl
    · exact .inr rfl

end Canonical

theorem isNumeral_marked {d : Decimal} {numeral : List Char} (h : d.marked = some numeral) :
    IsNumeral numeral := by
  cases d with
  | nan => cases h
  | infinite negative => cases h
  | finite negative rank =>
    cases h
    obtain ⟨whole, fraction, exponent, hmarked, hwhole, hfraction, hexponent⟩ :=
      (canonical_shortest .even rank).marked_parts
    have hsign : Decimal.signMark negative = [] ∨ Decimal.signMark negative = ['-'] := by
      cases negative
      · exact .inl rfl
      · exact .inr rfl
    have := isNumeral_of_parts hsign hwhole hfraction hexponent
    rw [hmarked]
    simpa using this

end Scriptorium.Json

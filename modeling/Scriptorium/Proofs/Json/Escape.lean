import Scriptorium.Json.Reader

/-!
# Escaped texts are read as they are written

The escapes that are written denote the characters they stand for, and the text
ends at its own closing quote.
-/

namespace Scriptorium.Json

theorem hexUnit?_control : ∀ n < 32,
    hexUnit? '0' '0' (hexChar (n / 16)) (hexChar (n % 16)) = some n := by decide

/-- An escaped unit that is no surrogate denotes its character, whatever follows. -/
theorem unescape?_unit {a b c d : Char} {n : Nat} (h : hexUnit? a b c d = some n)
    (hn : n < 0xD800) (cs : List Char) :
    unescape? ('\\' :: 'u' :: a :: b :: c :: d :: cs) =
      (unescape? cs).map fun rest => Char.ofNat n :: rest := by
  have hhigh : isHighSurrogate n = false := by
    simp [isHighSurrogate]
    omega
  have hlow : isLowSurrogate n = false := by
    simp [isLowSurrogate]
    omega
  rw [unescape?.eq_def]
  split
  · next heq => cases heq
  · next heq =>
    cases heq
    simp only [h, Option.bind_eq_bind, Option.bind_some, hhigh, hlow, Bool.false_eq_true, if_false,
      Option.map_eq_bind]
    rfl
  · next heq =>
    cases heq
    simp only [h, Option.bind_eq_bind, Option.bind_some, hhigh, hlow, Bool.or_self,
      Bool.false_eq_true, if_false, Option.map_eq_bind]
    rfl
  · next hno heq =>
    cases heq
    exact absurd rfl (hno _ _ _ _ _ rfl)
  · next hno heq =>
    cases heq
    exact absurd rfl (hno _ _ rfl)

theorem unescape?_simple {c e : Char} (h : simpleEscape? c = some e) (hc : c ≠ 'u')
    (cs : List Char) :
    unescape? ('\\' :: c :: cs) = (unescape? cs).map fun rest => e :: rest := by
  rw [unescape?.eq_def]
  split
  · next heq => cases heq
  · next heq =>
    cases heq
    exact absurd rfl hc
  · next heq =>
    cases heq
    exact absurd rfl hc
  · next heq =>
    cases heq
    simp only [h, Option.bind_eq_bind, Option.bind_some, Option.map_eq_bind]
    rfl
  · next hno heq =>
    cases heq
    exact absurd rfl (hno _ _ rfl)

theorem unescape?_plain {c : Char} (h : c ≠ '\\') (cs : List Char) :
    unescape? (c :: cs) = (unescape? cs).map fun rest => c :: rest := by
  rw [unescape?.eq_def]
  split
  · next heq => cases heq
  · next heq =>
    cases heq
    exact absurd rfl h
  · next heq =>
    cases heq
    exact absurd rfl h
  · next heq =>
    cases heq
    exact absurd rfl h
  · next heq =>
    cases heq
    rw [if_neg h]
    simp only [Option.bind_eq_bind, Option.map_eq_bind]
    rfl

/-- How a character is written: behind a backslash, by its number, or as it stands. -/
theorem escapeChar_cases (c : Char) :
    (∃ e, escapeChar c = ['\\', e] ∧ simpleEscape? e = some c ∧ e ≠ 'u') ∨
    (∃ x y, escapeChar c = ['\\', 'u', '0', '0', x, y] ∧ hexUnit? '0' '0' x y = some c.toNat ∧
      c.toNat < 32) ∨
    (escapeChar c = [c] ∧ c ≠ '\\' ∧ c ≠ '"' ∧ ¬c.toNat < 32) := by
  unfold escapeChar
  split
  · next h => exact .inl ⟨_, rfl, by rw [h]; rfl, by decide⟩
  next hquote =>
  split
  · next h => exact .inl ⟨_, rfl, by rw [h]; rfl, by decide⟩
  next hback =>
  split
  · next h => exact .inl ⟨_, rfl, by rw [h]; rfl, by decide⟩
  split
  · next h => exact .inl ⟨_, rfl, by rw [h]; rfl, by decide⟩
  split
  · next h => exact .inl ⟨_, rfl, by rw [h]; rfl, by decide⟩
  split
  · next h => exact .inl ⟨_, rfl, by rw [← Char.ofNat_toNat c, h]; rfl, by decide⟩
  split
  · next h => exact .inl ⟨_, rfl, by rw [← Char.ofNat_toNat c, h]; rfl, by decide⟩
  split
  · next h => exact .inr (.inl ⟨_, _, rfl, hexUnit?_control _ h, h⟩)
  · next h => exact .inr (.inr ⟨rfl, hback, hquote, h⟩)

theorem unescape?_escapeChar (c : Char) (cs : List Char) :
    unescape? (escapeChar c ++ cs) = (unescape? cs).map fun rest => c :: rest := by
  rcases escapeChar_cases c with ⟨e, hcode, he, hu⟩ | ⟨x, y, hcode, hunit, hsmall⟩ |
    ⟨hcode, hback, -, -⟩
  · rw [hcode]
    exact unescape?_simple he hu cs
  · rw [hcode]
    have := unescape?_unit hunit (Nat.lt_trans hsmall (by decide)) cs
    rwa [Char.ofNat_toNat] at this
  · rw [hcode]
    exact unescape?_plain hback cs

theorem unescape?_escape (cs : List Char) : unescape? (escape cs) = some cs := by
  induction cs with
  | nil => simp [escape, unescape?]
  | cons c cs ih =>
    have hcons : escape (c :: cs) = escapeChar c ++ escape cs := rfl
    rw [hcons, unescape?_escapeChar, ih]
    rfl

/-- The text is one that stands between quotes: a closing quote behind it is the first one. -/
def EndsAtQuote (escaped : List Char) : Prop :=
  ∀ rest, cutString? (escaped ++ '"' :: rest) = some (escaped, rest)

theorem cutString?_escapeChar (c : Char) (cs : List Char) :
    cutString? (escapeChar c ++ cs) =
      (cutString? cs).map fun r => (escapeChar c ++ r.1, r.2) := by
  rcases escapeChar_cases c with ⟨e, hcode, he, hu⟩ | ⟨x, y, hcode, hunit, hsmall⟩ |
    ⟨hcode, hback, hquote, hlarge⟩
  · rw [hcode]
    simp only [List.cons_append, List.nil_append]
    rw [cutString?.eq_def]
    split
    · next heq => cases heq
    · next heq => cases heq
    · next heq =>
      cases heq
      exact absurd rfl hu
    · next heq =>
      cases heq
      rw [he]
      rfl
    · next hno heq =>
      cases heq
      exact absurd rfl (hno _ _ rfl)
  · rw [hcode]
    simp only [List.cons_append, List.nil_append]
    rw [cutString?.eq_def]
    split
    · next heq => cases heq
    · next heq => cases heq
    · next heq =>
      cases heq
      rw [hunit]
      rfl
    · next hno heq =>
      cases heq
      exact absurd rfl (hno _ _ _ _ _ rfl)
    · next hno heq =>
      cases heq
      exact absurd rfl (hno _ _ rfl)
  · rw [hcode]
    simp only [List.cons_append, List.nil_append]
    rw [cutString?.eq_def]
    split
    · next heq => cases heq
    · next heq =>
      cases heq
      exact absurd rfl hquote
    · next heq =>
      cases heq
      exact absurd rfl hback
    · next heq =>
      cases heq
      exact absurd rfl hback
    · next heq =>
      cases heq
      simp [hback, hlarge]

theorem endsAtQuote_escape (cs : List Char) : EndsAtQuote (escape cs) := by
  intro rest
  induction cs with
  | nil => simp [escape, cutString?]
  | cons c cs ih =>
    have hcons : escape (c :: cs) = escapeChar c ++ escape cs := rfl
    rw [hcons, List.append_assoc, cutString?_escapeChar, ih]
    rfl

end Scriptorium.Json

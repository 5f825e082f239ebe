import Scriptorium.Proofs.Decimal.Text
import Scriptorium.Proofs.Unit.Reread
import Scriptorium.Value.Json

/-!
# Decimals that are numbers

The decimal that is not a number has a spelling of its own, which is neither a
decimal nor an integer numeral. So no literal denotes it, no document holds it,
and no text is coerced to it.
-/

namespace Scriptorium

namespace Decimal

theorem mem_of_mem_cutSign {cs : List Char} {c : Char} (h : c ∈ (cutSign cs).2) : c ∈ cs := by
  unfold cutSign at h
  split at h
  · exact List.mem_cons_of_mem _ h
  · exact List.mem_cons_of_mem _ h
  · exact h

theorem toLower_ne_n {c : Char} (h : c = '-' ∨ c = '.' ∨ c.isDigit = true) : c.toLower ≠ 'n' := by
  rcases h with rfl | rfl | hdigit
  · decide
  · decide
  · intro hlower
    have hsame : c.toLower = c := by
      have hupper : ¬(c.val ≥ 'A'.val ∧ c.val ≤ 'Z'.val) := by
        simp only [Char.isDigit, Bool.and_eq_true, decide_eq_true_eq] at hdigit
        intro hupper
        have hle := UInt32.le_trans hupper.1 hdigit.2
        exact absurd hle (by decide)
      unfold Char.toLower
      rw [dif_neg hupper]
    rw [hsame] at hlower
    subst hlower
    cases hdigit

theorem readNumeral?_ne_nan {negative : Bool} {cs : List Char} {d : Decimal}
    (h : readNumeral? negative cs = some d) : d ≠ .nan := by
  unfold readNumeral? at h
  dsimp only at h
  split at h
  all_goals
    split at h
    · cases h
    · simp only [Option.bind_eq_bind, Option.pure_def] at h
      obtain ⟨e, -, h⟩ := Option.bind_eq_some_iff.mp h
      cases h
      exact ofDigits_ne_nan _ _ _

/-- Digits with signs and points denote a number. -/
theorem read?_ne_nan {cs : List Char} {d : Decimal}
    (hspelled : ∀ c ∈ cs, c = '-' ∨ c = '.' ∨ c.isDigit = true) (h : read? cs = some d) :
    d ≠ .nan := by
  unfold read? at h
  dsimp only at h
  split at h
  · cases h
    exact nofun
  · split at h
    · next hword =>
      have hlist := congrArg String.toList (eq_of_beq hword)
      rw [String.toList_ofList] at hlist
      have hmem : 'n' ∈ (cutSign cs).2.map Char.toLower := by
        rw [hlist]
        decide
      obtain ⟨c, hc, hlower⟩ := List.mem_map.mp hmem
      exact absurd hlower (toLower_ne_n (hspelled c (mem_of_mem_cutSign hc)))
    · exact readNumeral?_ne_nan h

theorem spelled_unsigned {cs : List Char}
    (h : ∀ c ∈ Text.unsigned cs, c = '-' ∨ c = '.' ∨ c.isDigit = true) :
    ∀ c ∈ cs, c = '-' ∨ c = '.' ∨ c.isDigit = true := by
  unfold Text.unsigned at h
  split at h
  · intro c hc
    rcases List.mem_cons.mp hc with rfl | hc
    · exact .inl rfl
    · exact h c hc
  · exact h

theorem spelled_of_isInteger {cs : List Char} (h : Text.isInteger cs = true) :
    ∀ c ∈ cs, c = '-' ∨ c = '.' ∨ c.isDigit = true := by
  obtain ⟨-, hdigits⟩ := Text.isDigits_iff.mp h
  exact spelled_unsigned fun c hc => .inr (.inr (hdigits c hc))

theorem spelled_of_isDecimal {cs : List Char} (h : Text.isDecimal cs = true) :
    ∀ c ∈ cs, c = '-' ∨ c = '.' ∨ c.isDigit = true := by
  obtain ⟨whole, fraction, hbody, hwhole, hfraction⟩ := Text.isDecimal_iff h
  obtain ⟨-, hfraction⟩ := Text.isDigits_iff.mp hfraction
  refine spelled_unsigned fun c hc => ?_
  rw [hbody] at hc
  rcases List.mem_append.mp hc with hc | hc
  · exact .inr (.inr (hwhole c hc))
  · rcases List.mem_cons.mp hc with rfl | hc
    · exact .inr (.inl rfl)
    · exact .inr (.inr (hfraction c hc))

end Decimal

namespace Json

/-- The powers of ten by which decimals are scaled are neither zero nor infinite. -/
theorem powerOfTen_eq_finite :
    ∀ n < 309, (powerOfTen n).isFinite = true ∧ (powerOfTen n).isZero = false := by
  decide +kernel

theorem div_ne_nan {d p : Decimal} (h : d ≠ .nan) (hfinite : p.isFinite = true)
    (hzero : p.isZero = false) : d.div p ≠ .nan := by
  cases p with
  | nan => cases hfinite
  | infinite n => cases hfinite
  | finite m s =>
    have hs : s.val ≠ 0 := by
      intro hs
      simp [Decimal.isZero, Decimal.place?, hs] at hzero
    cases d with
    | nan => exact absurd rfl h
    | infinite n => exact nofun
    | finite n r =>
      rw [Decimal.div, if_neg hs]
      exact Decimal.ofRatio_ne_nan _ _ _

theorem scaleByTen_ne_nan {fuel : Nat} {d r : Decimal} {e : Int} (hd : d ≠ .nan)
    (h : scaleByTen fuel d e = some r) : r ≠ .nan := by
  induction fuel generalizing d e with
  | zero => cases h
  | succ fuel ih =>
    rw [scaleByTen] at h
    split at h
    · dsimp only at h
      split at h
      · next hfinite =>
        cases h
        intro hnan
        rw [hnan] at hfinite
        cases hfinite
      · cases h
    · split at h
      · next hrange =>
        cases h
        simp only [Bool.and_eq_true, decide_eq_true_eq] at hrange
        obtain ⟨hfinite, hzero⟩ := powerOfTen_eq_finite (-e).toNat (by omega)
        exact div_ne_nan hd hfinite hzero
      · split at h
        · cases h
          exact hd
        · split at h
          · cases h
          · obtain ⟨hfinite, hzero⟩ := powerOfTen_eq_finite 308 (by omega)
            exact ih (div_ne_nan hd hfinite hzero) h

theorem number?_ne_nan {cs : List Char} {d : Decimal} (h : number? cs = some (.decimal d)) :
    d ≠ .nan := by
  unfold number? at h
  dsimp only at h
  split at h
  · split at h
    · split at h
      · split at h
        · cases h
          exact Decimal.ofRank_ne_nan _ _
        · cases h
      · cases h
        exact Decimal.ofInt_ne_nan _
    · cases h
  · obtain ⟨d', hd', hd⟩ := Option.map_eq_some_iff.mp h
    cases hd
    unfold Numeral.decimal? at hd'
    obtain ⟨r, hr, rfl⟩ := Option.map_eq_some_iff.mp hd'
    have hr := scaleByTen_ne_nan (Decimal.ofInt_ne_nan _) hr
    split
    · cases r with
      | nan => exact absurd rfl hr
      | _ => exact nofun
    · exact hr

theorem decimal?_ne_nan {j : Json} {d : Decimal} (h : j.decimal? = some d) : d ≠ .nan := by
  unfold decimal? at h
  split at h
  · split at h
    · cases h
      exact Decimal.ofInt_ne_nan _
    · cases h
      exact Decimal.ofInt_ne_nan _
    · next hnumber =>
      cases h
      exact number?_ne_nan hnumber
    · cases h
  · cases h

end Json

theorem Decimal.reread_ne_nan {d : Decimal} (h : d ≠ .nan) : d.reread ≠ .nan := by
  unfold reread
  cases hread : (Json.ofDecimal d).decimal? with
  | none => exact h
  | some r => exact Json.decimal?_ne_nan hread

end Scriptorium

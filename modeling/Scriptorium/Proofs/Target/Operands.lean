import Scriptorium.Proofs.Target.Pieces

/-!
# Operands of target code are read as they are written

An operand is spelled well when its numeral is one of its kind and its element
numbers are digits. Such an operand is taken back from its code, whatever
follows it: the steps of an access end in front of the accessor of a read, since
an accessor is no step, and a literal does not begin like an access.
-/

namespace Scriptorium

/-- The number of an element is a run of digits. -/
def WrittenStep.Spelled : WrittenStep → Prop
  | .field _ => True
  | .index ds => Text.isDigits ds = true

/-- Every element number among the steps is a run of digits. -/
def WrittenAccess.Spelled (a : WrittenAccess) : Prop := ∀ s ∈ a.steps, s.Spelled

/-- The operand belongs to the kind, and its numeral is one of the kind. -/
def Operand.Spelled (kind : PrimitiveKind) : Operand → Prop
  | .integer numeral => kind = .integer ∧ Text.isInteger numeral = true
  | .decimal numeral => kind = .decimal ∧ Text.isDecimal numeral = true
  | .boolean _ => kind = .boolean
  | .string _ => kind = .string
  | .read access k => k = kind ∧ access.Spelled

namespace Target

open Grammar Grammar.Rule Text

variable {α : Type}

theorem stepRule_takes {w : String} {argument : Rule α} {arg rest : List Char} {a : α}
    (hw : ∀ cs, Tight (w.toList ++ cs)) (htight : Tight (arg ++ ')' :: rest))
    (h : Takes argument (arg ++ ')' :: rest) a (')' :: rest)) :
    Takes (stepRule w argument) ('.' :: callCode w arg ++ rest) a rest := by
  have hopen : Takes (spacedWord "(") ('(' :: (arg ++ ')' :: rest)) () (arg ++ ')' :: rest) :=
    spacedWord_takes (w := "(") (tight_cons rfl _)
  have hclose : Takes (spacedWord ")") (')' :: rest) () rest :=
    spacedWord_takes (w := ")") (tight_cons rfl _)
  have hcode : '.' :: callCode w arg ++ rest =
      ['.'] ++ (w.toList ++ '(' :: (arg ++ ')' :: rest)) := by
    simp [callCode]
  rw [hcode]
  refine ((word_takes _ _).andThen ?_).named
  refine (spacedWord_takes (hw _)).andThen ?_
  exact hopen.andThen ((htight.takes h).andThen (hclose.map _))

theorem isSpace_of_isDigit {c : Char} (h : c.isDigit = true) : isSpace c = false := by
  have hne : ∀ d : Char, d.isDigit = false → (c == d) = false := by
    intro d hd
    refine beq_eq_false_iff_ne.mpr fun e => ?_
    rw [e, hd] at h
    cases h
  simp [isSpace, hne]

theorem digits_tight {ds rest : List Char} (h : Text.isDigits ds = true) : Tight (ds ++ rest) := by
  obtain ⟨hne, hall⟩ := isDigits_iff.mp h
  obtain ⟨d, ds, rfl⟩ := List.exists_cons_of_ne_nil hne
  exact tight_cons (isSpace_of_isDigit (hall d (by simp))) _

theorem step_tight (s : WrittenStep) (rest : List Char) : Tight (s.code ++ rest) := by
  cases s <;> exact tight_cons rfl _

theorem step_takes {s : WrittenStep} (h : s.Spelled) (rest : List Char) :
    Takes step (s.code ++ rest) s rest := by
  cases s with
  | field name =>
    exact ((stepRule_takes (tight_word rfl) (tight_cons rfl _)
      (quoted_takes name _)).map _).orElse _
  | index ds =>
    have hfield : Refuses (stepRule "field" quoted)
        ('.' :: callCode "at" ds ++ rest) :=
      ((word_takes ['.'] _).andThen_refuses
        (((tight_cons rfl _).refuses (word_refuses rfl)).andThen _)).named
    refine (hfield.map _).orElse_takes ?_
    refine (stepRule_takes (tight_word rfl) (digits_tight h) (digits_takes h ?_)).map _
    intro c hc
    obtain rfl : ')' = c := by simpa using hc
    rfl

/-- A step stands behind a point. -/
theorem step_refuses {cs : List Char} (h : cs.head? ≠ some '.') : Refuses step cs := by
  have hpoint : Refuses (word ['.']) cs := word_refuses (by
    cases cs with
    | nil => rfl
    | cons c cs =>
      have hc : ¬ '.' = c := fun e => h (by rw [← e]; rfl)
      simp [List.isPrefixOf, hc])
  exact ((hpoint.andThen _).named.map _).orElse ((hpoint.andThen _).named.map _)

/-- The accessor of a read is no step. -/
theorem accessor_refuses (kind : PrimitiveKind) (rest : List Char) :
    Refuses step ('.' :: callCode kind.accessor [] ++ rest) := by
  refine Refuses.orElse (Refuses.map ?_ _) (Refuses.map ?_ _)
  all_goals
    refine ((word_takes ['.'] _).andThen_refuses (Refuses.andThen ?_ _)).named
    cases kind <;> exact (tight_cons rfl _).refuses (word_refuses rfl)

theorem step_length_pos (s : WrittenStep) : 0 < s.code.length := by
  cases s <;> simp [WrittenStep.code]

theorem steps_repeat {steps : List WrittenStep} (h : ∀ s ∈ steps, s.Spelled)
    {rest : List Char} (hend : Refuses (spaced step) rest) :
    Repeats step (steps.flatMap WrittenStep.code ++ rest) steps rest := by
  induction steps with
  | nil => exact .done hend
  | cons s steps ih =>
    have hs := step_takes (h s (by simp)) (steps.flatMap WrittenStep.code ++ rest)
    have hmore := ih fun s hs => h s (by simp [hs])
    rw [List.flatMap_cons, List.append_assoc]
    refine .more ((step_tight s _).takes hs) ?_ hmore
    have := step_length_pos s
    simp only [List.length_append]
    omega

theorem access_reads {a : WrittenAccess} (h : a.Spelled) {rest : List Char}
    (hend : Refuses (spaced step) rest) : Reads access (a.code ++ rest) a rest := by
  have hsteps := (steps_repeat h hend).reads
  have hcode : a.code ++ rest = "var".toList ++ ("(".toList ++ (quoteText a.head ++
      (")".toList ++ (a.steps.flatMap WrittenStep.code ++ rest)))) := by
    simp [WrittenAccess.code, callCode]
  rw [hcode]
  refine Reads.named (Takes.andThen_reads (word_takes _ _) ?_)
  refine Takes.andThen_reads (spacedWord_takes (tight_word rfl _)) ?_
  refine Takes.andThen_reads ((tight_cons rfl _).takes (quoted_takes _ _)) ?_
  refine Takes.andThen_reads (spacedWord_takes (tight_word rfl _)) ?_
  exact hsteps.map _

theorem read_takes {a : WrittenAccess} (h : a.Spelled) (kind : PrimitiveKind)
    (rest : List Char) :
    Takes (read kind) ((Operand.read a kind).code ++ rest) (.read a kind) rest := by
  have haccessor : Tight ('.' :: callCode kind.accessor [] ++ rest) := tight_cons rfl _
  obtain ⟨left, haccess, hleft, -⟩ := access_reads h
    (haccessor.refuses (accessor_refuses kind rest))
  have hcode : (Operand.read a kind).code ++ rest =
      a.code ++ ('.' :: callCode kind.accessor [] ++ rest) := by
    simp [Operand.code]
  rw [hcode]
  have hcall : '.' :: callCode kind.accessor [] ++ rest =
      ".".toList ++ (kind.accessor.toList ++ ("(".toList ++ (")".toList ++ rest))) := by
    simp [callCode]
  have hpoint : Takes (spacedWord ".") left ()
      (kind.accessor.toList ++ ("(".toList ++ (")".toList ++ rest))) := by
    refine spaced_takes_iff.mpr ?_
    rw [hleft, haccessor, hcall]
    exact word_takes _ _
  have hkind : ∀ cs, Tight (kind.accessor.toList ++ cs) := by
    cases kind <;> exact tight_word rfl
  refine (haccess.andThen (hpoint.andThen ?_)).named
  refine (spacedWord_takes (hkind _)).andThen ?_
  refine (spacedWord_takes (tight_word rfl _)).andThen ?_
  exact (spacedWord_takes (tight_word rfl _)).map _

theorem access_refuses {cs : List Char} (h : "var".toList.isPrefixOf cs = false) :
    Refuses access cs := ((word_refuses h).andThen _).named

theorem read_refuses {cs : List Char} (h : "var".toList.isPrefixOf cs = false)
    (kind : PrimitiveKind) : Refuses (read kind) cs := ((access_refuses h).andThen _).named

/-- A numeral begins with a minus sign, a point or a digit. -/
theorem numeral_head {cs : List Char} (h : Text.isInteger cs = true ∨ Text.isDecimal cs = true) :
    ∃ c ds, cs = c :: ds ∧ (c = '-' ∨ c = '.' ∨ c.isDigit = true) := by
  have hbody : Text.unsigned cs = cs →
      ∃ c ds, cs = c :: ds ∧ (c = '-' ∨ c = '.' ∨ c.isDigit = true) := by
    intro hcs
    rcases h with h | h
    · unfold Text.isInteger at h
      rw [hcs] at h
      obtain ⟨hne, hall⟩ := isDigits_iff.mp h
      obtain ⟨d, ds, rfl⟩ := List.exists_cons_of_ne_nil hne
      exact ⟨d, ds, rfl, .inr (.inr (hall d (by simp)))⟩
    · obtain ⟨whole, fraction, hbody, hwhole, -⟩ := isDecimal_iff h
      rw [hcs] at hbody
      cases whole with
      | nil => exact ⟨'.', fraction, hbody, .inr (.inl rfl)⟩
      | cons d ds => exact ⟨d, _, hbody, .inr (.inr (hwhole d (by simp)))⟩
  unfold Text.unsigned at hbody
  split at hbody
  · next ds => exact ⟨'-', ds, rfl, .inl rfl⟩
  · exact hbody rfl

theorem numeral_refuses {cs : List Char} (h : Text.isInteger cs = true ∨ Text.isDecimal cs = true)
    (kind : PrimitiveKind) (rest : List Char) : Refuses (read kind) (cs ++ rest) := by
  obtain ⟨c, ds, rfl, hc⟩ := numeral_head h
  refine read_refuses ?_ kind
  have hv : ¬ 'v' = c := by
    rcases hc with rfl | rfl | hc
    · decide
    · decide
    · intro e
      rw [← e] at hc
      exact absurd hc (by decide)
  simp [List.isPrefixOf, hv]

theorem numeral_tight {cs : List Char} (h : Text.isInteger cs = true ∨ Text.isDecimal cs = true)
    (rest : List Char) : Tight (cs ++ rest) := by
  obtain ⟨c, ds, rfl, hc⟩ := numeral_head h
  refine tight_cons ?_ _
  rcases hc with rfl | rfl | hc
  · rfl
  · rfl
  · exact isSpace_of_isDigit hc

end Target

end Scriptorium

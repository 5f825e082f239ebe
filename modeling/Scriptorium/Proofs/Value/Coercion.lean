import Mathlib.Data.Nat.Digits.Defs
import Scriptorium.Proofs.Target.Exact
import Scriptorium.Proofs.Text.Blank

/-!
# Coercion from text and to text

A text is coerced to an integer exactly when it is the numeral of a word with
blanks around it, whatever zeros stand in front. The text that an integer or a
truth value is coerced to is coerced back to the same value, and coercion leaves
what it has returned as it is.
-/

namespace Scriptorium

namespace Text

/-- The digits of a number in positional notation, behind a minus sign or none. -/
inductive IntegerNumeral : List Char → Int → Prop
  | plain {digits : List Char} (h : isDigits digits = true) :
    IntegerNumeral digits (Nat.ofDigits 10 (digits.reverse.map digitValue) : Nat)
  | minus {digits : List Char} (h : isDigits digits = true) :
    IntegerNumeral ('-' :: digits) (-(Nat.ofDigits 10 (digits.reverse.map digitValue) : Nat))

/-- Digits are added up from the most significant one on. -/
theorem digitsValue_eq_ofDigits (digits : List Char) :
    digitsValue digits = Nat.ofDigits 10 (digits.reverse.map digitValue) := by
  induction digits using List.reverseRecOn with
  | nil => rfl
  | append_singleton ds d ih =>
    have hvalue : digitsValue (ds ++ [d]) = 10 * digitsValue ds + digitValue d := by
      simp [digitsValue]
    rw [hvalue, ih, List.reverse_append, List.reverse_singleton, List.singleton_append,
      List.map_cons, Nat.ofDigits_cons, Nat.add_comm]

theorem integerValue_of_isDigits {digits : List Char} (h : isDigits digits = true) :
    isInteger digits = true ∧ integerValue digits = digitsValue digits := by
  have hhead := head?_ne_of_isDigits (isDigits_iff.mp h).2
  refine ⟨isInteger_append (.inl rfl) h, ?_⟩
  unfold integerValue
  split
  · exact absurd rfl hhead
  · rfl

/-- An integer numeral is what denotes its value, and nothing else. -/
theorem integerNumeral_iff {numeral : List Char} {n : Int} :
    IntegerNumeral numeral n ↔ isInteger numeral = true ∧ integerValue numeral = n := by
  constructor
  · intro h
    cases h with
    | plain h =>
      rw [← digitsValue_eq_ofDigits]
      exact integerValue_of_isDigits h
    | minus h =>
      rw [← digitsValue_eq_ofDigits]
      exact ⟨h, rfl⟩
  · rintro ⟨hinteger, rfl⟩
    by_cases hminus : ∃ digits, numeral = '-' :: digits
    · obtain ⟨digits, rfl⟩ := hminus
      rw [integerValue, digitsValue_eq_ofDigits]
      exact .minus hinteger
    · have hdigits : isDigits numeral = true := by
        unfold isInteger unsigned at hinteger
        split at hinteger
        · exact absurd ⟨_, rfl⟩ hminus
        · exact hinteger
      rw [(integerValue_of_isDigits hdigits).2, digitsValue_eq_ofDigits]
      exact .plain hdigits

theorem IntegerNumeral.solid {numeral : List Char} {n : Int} (h : IntegerNumeral numeral n) :
    ∀ c ∈ numeral, isBlank c = false := by
  have hdigit {digits : List Char} (hd : isDigits digits = true) :
      ∀ c ∈ digits, isBlank c = false := by
    intro c hc
    have hblank := of_isDigit (p := fun d => !isBlank d) (by decide) ((isDigits_iff.mp hd).2 c hc)
    simpa using hblank
  cases h with
  | plain h => exact hdigit h
  | minus h => exact List.forall_mem_cons.mpr ⟨by decide, hdigit h⟩

theorem integerNumeral_self (n : Int) : IntegerNumeral (intNumeral n) n :=
  integerNumeral_iff.mpr ⟨isInteger_intNumeral n, integerValue_intNumeral n⟩

/-- The text is the numeral of the number, with blanks around it. -/
def SpacedNumeral (cs : List Char) (n : Int) : Prop :=
  ∃ before numeral after, Blanks before ∧ Blanks after ∧ IntegerNumeral numeral n ∧
    cs = before ++ (numeral ++ after)

theorem integerNumeral_trim_iff {cs : List Char} {n : Int} :
    IntegerNumeral (trim cs) n ↔ SpacedNumeral cs n := by
  constructor
  · intro h
    obtain ⟨before, after, hbefore, hafter, hcs⟩ := exists_trim cs
    exact ⟨before, trim cs, after, hbefore, hafter, h, hcs⟩
  · rintro ⟨before, numeral, after, hbefore, hafter, h, hcs⟩
    rwa [(trim_eq_iff h.solid).mpr ⟨before, after, hbefore, hafter, hcs⟩]

end Text

/-- The words are read from the numerals that denote them. -/
theorem Integer.read?_eq_some_iff {numeral : List Char} {w : Int64} :
    read? numeral = some w ↔ Text.IntegerNumeral numeral w.toInt := by
  rw [Text.integerNumeral_iff]
  unfold read?
  constructor
  · intro h
    split at h
    · next hinteger => exact ⟨hinteger, (toInt_of_ofInt? h).symm⟩
    · cases h
  · rintro ⟨hinteger, hvalue⟩
    rw [if_pos hinteger, hvalue, ofInt?_toInt]

namespace SemanticType

open Text

/-- A text is coerced to the word whose numeral it is. -/
theorem coerce_string_integer {s : String} {v : Value} :
    (primitive .integer).coerce (.string s) = .ok v ↔
      ∃ w : Int64, SpacedNumeral s.toList w.toInt ∧ v = .integer w := by
  rw [coerce_eq_ok, coerce?, Option.map_eq_some_iff]
  constructor
  · rintro ⟨w, hread, rfl⟩
    exact ⟨w, integerNumeral_trim_iff.mp (Integer.read?_eq_some_iff.mp hread), rfl⟩
  · rintro ⟨w, hspaced, rfl⟩
    exact ⟨w, Integer.read?_eq_some_iff.mpr (integerNumeral_trim_iff.mpr hspaced), rfl⟩

/-- What is coerced to a type belongs to the type. -/
theorem coerce_coerced {type : SemanticType} {v w : Value} (h : type.coerce v = .ok w) :
    type.coerce w = .ok w :=
  coerce_eq_ok.mpr (coerce?_eq_some (coerce_eq_ok.mp h)).1

/-- A text is coerced to an integer exactly when it is the numeral of a word, with blanks around it,
and then to that word. Integers and truth values come back from their texts, and what a value is
coerced to is coerced to itself. -/
theorem coerce_exact :
    (∀ (s : String) (v : Value), (primitive .integer).coerce (.string s) = .ok v ↔
      ∃ n : Int, SpacedNumeral s.toList n ∧ Integer.IsWord n ∧ v = .integer (Int64.ofInt n)) ∧
    (∀ n : Int64, ∃ text, (primitive .string).coerce (.integer n) = .ok (.string text) ∧
      (primitive .integer).coerce (.string text) = .ok (.integer n)) ∧
    (∀ b : Bool, ∃ text, (primitive .string).coerce (.boolean b) = .ok (.string text) ∧
      (primitive .boolean).coerce (.string text) = .ok (.boolean b)) ∧
    ∀ (type : SemanticType) (v w : Value), type.coerce v = .ok w → type.coerce w = .ok w := by
  refine ⟨fun s v => ?_, fun n => ⟨(Value.integer n).text, rfl, ?_⟩, fun b => ?_,
    fun type v w => coerce_coerced⟩
  · rw [coerce_string_integer]
    constructor
    · rintro ⟨w, hspaced, rfl⟩
      exact ⟨w.toInt, hspaced, Integer.isWord_toInt w, by rw [Int64.ofInt_toInt]⟩
    · rintro ⟨n, hspaced, hword, rfl⟩
      obtain ⟨w, -, rfl, -⟩ | ⟨-, hno⟩ := Integer.ofInt?_cases n
      · exact ⟨w, hspaced, by rw [Int64.ofInt_toInt]⟩
      · exact absurd hword hno
  · have hnumeral : (Value.integer n).text.toList = [] ++ (intNumeral n.toInt ++ []) := by
      simp [Value.text, Integer.numeral]
    refine coerce_string_integer.mpr ⟨n, ?_, rfl⟩
    have hnone : Blanks [] := List.forall_mem_nil _
    exact ⟨[], _, [], hnone, hnone, integerNumeral_self n.toInt, hnumeral⟩
  · cases b
    · exact ⟨"false", rfl, rfl⟩
    · exact ⟨"true", rfl, rfl⟩

/-- The least word is read behind zeros and between blanks, and its text is read back. -/
theorem coerce_exact_least :
    let s := " \t-009223372036854775808\u3000"
    SpacedNumeral s.toList (-(2 ^ 63)) ∧
      (primitive .integer).coerce (.string s) = .ok (.integer Int64.minValue) ∧
      (primitive .integer).coerce (.integer Int64.minValue) = .ok (.integer Int64.minValue) ∧
      ∃ text, (primitive .integer).coerce (.string text) = .ok (.integer Int64.minValue) := by
  intro s
  have hnumeral : IntegerNumeral "-009223372036854775808".toList (-(2 ^ 63)) :=
    integerNumeral_iff.mpr ⟨by decide, by decide⟩
  have hspaced : SpacedNumeral s.toList (-(2 ^ 63)) :=
    ⟨[' ', '\t'], _, ['\u3000'], by decide, by decide, hnumeral, by decide⟩
  obtain ⟨hread, hback, -, hagain⟩ := coerce_exact
  have hleast := (hread s _).mpr ⟨-(2 ^ 63), hspaced, by decide, rfl⟩
  obtain ⟨text, -, htext⟩ := hback Int64.minValue
  exact ⟨hspaced, hleast, hagain _ _ _ hleast, text, htext⟩

/-- One more than the greatest word is no integer here, and a plus sign begins no numeral. -/
example : (primitive .integer).coerce? (.string "9223372036854775808") = none ∧
    (primitive .integer).coerce? (.string "+1") = none := ⟨rfl, rfl⟩

end SemanticType

end Scriptorium

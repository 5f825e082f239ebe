import Scriptorium.Expression.Translation
import Scriptorium.Proofs.Text.Numeral
import Scriptorium.Proofs.Variable.Declared

/-!
# What a token stands for

A token that spells null or a value stands for it whatever is declared. Any
other token is looked up among the variables, and stands for an element of an
array, for the slot to which a chain of fields leads, or for a variable. Which of
these a token is looked up as is told by its spelling alone.
-/

namespace Scriptorium.Expression

variable {types : Registry} {t : VariableTable} {token : List Char} {term : Term}

/-! ## Literals -/

/-- A text that does not begin like a numeral is none. -/
theorem not_numeral {c : Char} (hdigit : c.isDigit = false) (hminus : c ≠ '-')
    (hpoint : c ≠ '.') (cs : List Char) :
    Text.isInteger (c :: cs) = false ∧ Text.isDecimal (c :: cs) = false := by
  have hunsigned : Text.unsigned (c :: cs) = c :: cs := by
    unfold Text.unsigned
    split
    · next heq => exact absurd (List.cons.inj heq).1 hminus
    · rfl
  constructor
  · simp [Text.isInteger, hunsigned, Text.isDigits, hdigit]
  · unfold Text.isDecimal
    dsimp only
    rw [hunsigned]
    split
    · simp [hpoint, hdigit]
    · rfl

theorem stringLiteral?_eq_some {token content : List Char} :
    stringLiteral? token = some content ↔ token = '\'' :: content ++ ['\''] ∧ '\'' ∉ content := by
  constructor
  · intro h
    unfold stringLiteral? at h
    split at h
    · next cs =>
      split at h
      · next hlast =>
        dsimp only at h
        split at h
        · cases h
        · next hquote =>
          cases h
          obtain ⟨content, rfl⟩ := List.getLast?_eq_some_iff.mp hlast
          rw [List.dropLast_concat] at hquote ⊢
          exact ⟨rfl, by simpa using hquote⟩
      · cases h
    · cases h
  · rintro ⟨rfl, hquote⟩
    simp [stringLiteral?, hquote]

/-- The term that a token spells whatever is declared. -/
def literalTerm? (token : List Char) : Option Term :=
  if token = "null".toList then some .null
  else if Text.isInteger token then some (.operand (.integer token))
  else if Text.isDecimal token then some (.operand (.decimal token))
  else if token = "true".toList then some (.operand (.boolean true))
  else if token = "false".toList then some (.operand (.boolean false))
  else (stringLiteral? token).map fun content => .operand (.string content)

/-- The token spells the term. -/
inductive LiteralTerm : List Char → Term → Prop
  | null : LiteralTerm "null".toList .null
  | integer {token : List Char} (h : Text.isInteger token = true) :
    LiteralTerm token (.operand (.integer token))
  | decimal {token : List Char} (hinteger : Text.isInteger token = false)
    (h : Text.isDecimal token = true) : LiteralTerm token (.operand (.decimal token))
  | true : LiteralTerm "true".toList (.operand (.boolean true))
  | false : LiteralTerm "false".toList (.operand (.boolean false))
  | string {content : List Char} (h : '\'' ∉ content) :
    LiteralTerm ('\'' :: content ++ ['\'']) (.operand (.string content))

theorem literalTerm_of_eq_some (h : literalTerm? token = some term) :
    LiteralTerm token term := by
  unfold literalTerm? at h
  split at h
  · next hnull =>
    cases h
    rw [hnull]
    exact .null
  split at h
  · next hinteger =>
    cases h
    exact .integer hinteger
  next hinteger =>
  split at h
  · next hdecimal =>
    cases h
    exact .decimal (by simpa using hinteger) hdecimal
  split at h
  · next htrue =>
    cases h
    rw [htrue]
    exact .true
  split at h
  · next hfalse =>
    cases h
    rw [hfalse]
    exact .false
  · obtain ⟨content, hcontent, rfl⟩ := Option.map_eq_some_iff.mp h
    obtain ⟨rfl, hquote⟩ := stringLiteral?_eq_some.mp hcontent
    exact .string hquote

theorem literalTerm?_of_literalTerm (h : LiteralTerm token term) :
    literalTerm? token = some term := by
  have hnumeral {token : List Char} (h : Text.isInteger token = true ∨ Text.isDecimal token = true) :
      token ≠ "null".toList := by
    rintro rfl
    revert h
    decide
  cases h with
  | null | true | false => rfl
  | integer h => rw [literalTerm?, if_neg (hnumeral (.inl h)), if_pos h]
  | decimal hinteger h =>
    rw [literalTerm?, if_neg (hnumeral (.inr h)), hinteger, if_neg Bool.false_ne_true, if_pos h]
  | @string content hquote =>
    obtain ⟨hinteger, hdecimal⟩ := not_numeral (by decide) (by decide : '\'' ≠ '-') (by decide)
      (content ++ ['\''])
    have hliteral := stringLiteral?_eq_some.mpr ⟨rfl, hquote⟩
    rw [List.cons_append] at hliteral ⊢
    simp [literalTerm?, hinteger, hdecimal, hliteral]

theorem literalTerm?_eq_some : literalTerm? token = some term ↔ LiteralTerm token term :=
  ⟨literalTerm_of_eq_some, literalTerm?_of_literalTerm⟩

/-- A token that spells nothing is no word of the language. -/
theorem not_word_of_literalTerm? (h : literalTerm? token = none) :
    token ∉ ["null".toList, "true".toList, "false".toList] := by
  intro hword
  have hall : ∀ w ∈ ["null".toList, "true".toList, "false".toList], literalTerm? w ≠ none := by
    decide
  exact hall token hword h

/-! ## Slots and elements -/

theorem variableTerm?_eq_some :
    variableTerm? t token = some term ↔ Text.isIdentifier token = true ∧
      ∃ v, t.get? (String.ofList token) = some v ∧ term = accessTerm ⟨token, []⟩ v.type := by
  unfold variableTerm?
  split
  · next hname => simp [hname, eq_comm]
  · next hname => simp [hname]

theorem fieldChain_eq_some :
    (fieldChain t token).run types = .ok (some term) ↔
      Text.isIdentifier (Text.splitAt '.' token).1 = true ∧
      ∃ v, t.get? (String.ofList (Text.splitAt '.' token).1) = some v ∧
        (followFields ⟨(Text.splitAt '.' token).1, []⟩ v.type (Text.splitAt '.' token).2).run types =
          .ok (some term) := by
  unfold fieldChain
  dsimp only
  by_cases hname : Text.isIdentifier (Text.splitAt '.' token).1 = true
  · cases hget : t.get? (String.ofList (Text.splitAt '.' token).1) <;> simp [hname]
  · simp [hname]

/-- An element is read of a declared array, by a number of the machine that counts from one. -/
theorem element?_eq_some :
    element? t token = some term ↔ ∃ name rest, Text.splitFirst? ['['] token = some (name, rest) ∧
      rest.getLast? = some ']' ∧ Text.isIdentifier name = true ∧
      Text.isPositiveInteger rest.dropLast = true ∧
      t.typeOf? (String.ofList name) = some .array ∧
      Text.digitsValue rest.dropLast < WrittenStep.indexBound ∧
      term = .reference ⟨name, [.index (Text.natDigits (Text.digitsValue rest.dropLast - 1))]⟩ := by
  unfold element? VariableTable.typeOf?
  rcases Text.splitFirst? ['['] token with _ | ⟨name, rest⟩
  · simp
  by_cases hclose : rest.getLast? = some ']'
  · simp only [hclose, if_true, Option.bind_eq_bind, Option.bind_some, Option.some.injEq,
      Prod.mk.injEq, Bool.or_eq_true, Bool.not_eq_true']
    rcases hget : t.get? (String.ofList name) with _ | v
    · simp [hget]
    · constructor
      · intro h
        split at h
        · cases h
        · next hspelled =>
          simp only [Option.bind_some] at h
          split at h
          · next hbound =>
            simp only [Bool.and_eq_true, decide_eq_true_eq] at hbound
            exact ⟨name, rest, ⟨rfl, rfl⟩, hclose, by simpa using fun e => hspelled (.inl e),
              by simpa using fun e => hspelled (.inr e), by simp [hget, hbound.1], hbound.2,
              (Option.some.inj h).symm⟩
          · cases h
      · rintro ⟨name', rest', ⟨rfl, rfl⟩, -, hname, hindex, htype, hbound, rfl⟩
        have harray : v.type = .array := by simpa [hget] using htype
        simp [hname, hindex, harray, hbound]
  · simp [hclose]

/-- The token is looked up as the term. -/
inductive SlotTerm (types : Registry) (t : VariableTable) (token : List Char) (term : Term) : Prop
  | element (hclose : token.getLast? = some ']') (h : element? t token = some term)
  | chain (hclose : token.getLast? ≠ some ']') (hpoint : token.contains '.' = true)
    (h : (fieldChain t token).run types = .ok (some term))
  | declared (hclose : token.getLast? ≠ some ']') (hpoint : token.contains '.' = false)
    (h : variableTerm? t token = some term)

/-- Only a token that spells nothing is looked up. -/
theorem classify_eq (t : VariableTable) (token : List Char) :
    classify t token =
      match literalTerm? token with
      | some term => return .ok (some term)
      | none =>
        if token.getLast? = some ']' then return .ok (element? t token)
        else if token.contains '.' then fieldChain t token
        else return .ok (variableTerm? t token) := by
  unfold classify literalTerm?
  split; · rfl
  split; · rfl
  split; · rfl
  split; · rfl
  split; · rfl
  cases stringLiteral? token <;> rfl

/-- A token stands for the term that it spells, or else for the one as which it is looked up. -/
theorem classify_eq_some :
    (classify t token).run types = .ok (some term) ↔
      LiteralTerm token term ∨ literalTerm? token = none ∧ SlotTerm types t token term := by
  rw [classify_eq, ← literalTerm?_eq_some]
  cases literalTerm? token with
  | some spelled => simp
  | none =>
    simp only [reduceCtorEq, true_and, false_or]
    constructor
    · intro h
      split at h
      · next hclose => exact .element hclose (Except.ok.inj h)
      next hclose =>
      split at h
      · next hpoint => exact .chain hclose hpoint h
      · next hpoint => exact .declared hclose (by simpa using hpoint) (Except.ok.inj h)
    · rintro (⟨hclose, h⟩ | ⟨hclose, hpoint, h⟩ | ⟨hclose, hpoint, h⟩)
      · rw [if_pos hclose, h]
        rfl
      · rw [if_neg hclose, if_pos hpoint]
        exact h
      · rw [if_neg hclose, hpoint, if_neg Bool.false_ne_true, h]
        rfl

end Scriptorium.Expression

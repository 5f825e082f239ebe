import Scriptorium.Text.Numeral

/-!
# Integers of 64 bits

Integers are signed words of 64 bits. An operation yields its exact result when
that is a word, and nothing otherwise; division truncates toward zero.
-/

namespace Scriptorium.Integer

/-- The word with this value, when there is one. -/
def ofInt? (n : Int) : Option Int64 :=
  if Int64.minValue.toInt ≤ n ∧ n ≤ Int64.maxValue.toInt then some (Int64.ofInt n) else none

/-- The exact sum. -/
def add? (a b : Int64) : Option Int64 := ofInt? (a.toInt + b.toInt)

/-- The exact difference. -/
def sub? (a b : Int64) : Option Int64 := ofInt? (a.toInt - b.toInt)

/-- The exact product. -/
def mul? (a b : Int64) : Option Int64 := ofInt? (a.toInt * b.toInt)

/-- The exact quotient truncated toward zero. -/
def div? (a b : Int64) : Option Int64 :=
  if b = 0 then none else ofInt? (a.toInt.tdiv b.toInt)

/-- The integer that a numeral denotes, when it is a word. -/
def read? (cs : List Char) : Option Int64 :=
  if Text.isInteger cs then ofInt? (Text.integerValue cs) else none

/-- The numeral of an integer. -/
def numeral (n : Int64) : List Char := Text.intNumeral n.toInt

theorem toInt_of_ofInt? {n : Int} {w : Int64} (h : ofInt? n = some w) : w.toInt = n := by
  unfold ofInt? at h
  split at h
  · next hn =>
    obtain rfl : Int64.ofInt n = w := by simpa using h
    exact Int64.toInt_ofInt_of_le hn.1 (Int.lt_of_le_of_lt hn.2 (by decide))
  · simp at h

theorem ofInt?_toInt (w : Int64) : ofInt? w.toInt = some w := by
  have hlow : Int64.minValue.toInt ≤ w.toInt := Int64.minValue_le_toInt w
  have hhigh : w.toInt ≤ Int64.maxValue.toInt := w.toInt_le
  rw [ofInt?, if_pos ⟨hlow, hhigh⟩, Int64.ofInt_toInt]

end Scriptorium.Integer

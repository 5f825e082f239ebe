import Scriptorium.Grammar.Rule

/-!
# What rules take

Whether a rule takes a part off the front of a text, and which, is settled apart
from the marks that failed attempts leave. The laws here follow the combinators
of the grammar: what a sequence, a choice or a repetition takes is told by what
its parts take, and a choice goes on to its second part only when the first one
refuses the text.
-/

namespace Scriptorium.Grammar.Rule

variable {α β : Type}

/-- The rule takes `a` off the front of the text and leaves the rest. -/
def Takes (p : Rule α) (cs : List Char) (a : α) (rest : List Char) : Prop :=
  (p cs).result = some (a, rest)

/-- The rule takes nothing off the front of the text. -/
def Refuses (p : Rule α) (cs : List Char) : Prop := (p cs).result = none

theorem result_andThen (p : Rule α) (f : α → Rule β) (cs : List Char) :
    (andThen p f cs).result = (p cs).result.bind fun taken => (f taken.1 taken.2).result := by
  unfold andThen
  rcases p cs with ⟨stuck, _ | ⟨a, rest⟩⟩ <;> rfl

theorem result_orElse (p q : Rule α) (cs : List Char) :
    (orElse p q cs).result = (p cs).result.or (q cs).result := by
  unfold orElse
  rcases p cs with ⟨stuck, _ | taken⟩ <;> rfl

theorem result_named (p : Rule α) (cs : List Char) :
    (named p cs).result = (p cs).result := by
  unfold named
  rcases p cs with ⟨stuck, _ | taken⟩ <;> rfl

theorem accept_takes (a : α) (cs : List Char) : Takes (accept a) cs a cs := rfl

theorem Takes.andThen {p : Rule α} {f : α → Rule β} {cs mid rest : List Char} {a : α} {b : β}
    (h : Takes p cs a mid) (k : Takes (f a) mid b rest) :
    Takes (Rule.andThen p f) cs b rest := by
  unfold Takes at *
  rw [result_andThen, h]
  exact k

theorem Takes.andThen_refuses {p : Rule α} {f : α → Rule β} {cs mid : List Char} {a : α}
    (h : Takes p cs a mid) (k : Refuses (f a) mid) : Refuses (Rule.andThen p f) cs := by
  unfold Takes Refuses at *
  rw [result_andThen, h]
  exact k

theorem Refuses.andThen {p : Rule α} {cs : List Char} (h : Refuses p cs) (f : α → Rule β) :
    Refuses (Rule.andThen p f) cs := by
  unfold Refuses at *
  rw [result_andThen, h]
  rfl

theorem Takes.map {p : Rule α} {cs rest : List Char} {a : α} (h : Takes p cs a rest)
    (f : α → β) : Takes (Rule.map f p) cs (f a) rest := h.andThen (accept_takes _ _)

theorem Refuses.map {p : Rule α} {cs : List Char} (h : Refuses p cs) (f : α → β) :
    Refuses (Rule.map f p) cs := h.andThen _

theorem Takes.orElse {p : Rule α} {cs rest : List Char} {a : α} (h : Takes p cs a rest)
    (q : Rule α) : Takes (Rule.orElse p q) cs a rest := by
  unfold Takes at *
  rw [result_orElse, h]
  rfl

theorem Refuses.orElse_takes {p q : Rule α} {cs rest : List Char} {a : α} (h : Refuses p cs)
    (k : Takes q cs a rest) : Takes (Rule.orElse p q) cs a rest := by
  unfold Takes Refuses at *
  rw [result_orElse, h]
  exact k

theorem Refuses.orElse {p q : Rule α} {cs : List Char} (h : Refuses p cs) (k : Refuses q cs) :
    Refuses (Rule.orElse p q) cs := by
  unfold Refuses at *
  rw [result_orElse, h]
  exact k

theorem Takes.named {p : Rule α} {cs rest : List Char} {a : α} (h : Takes p cs a rest) :
    Takes (Rule.named p) cs a rest := (result_named p cs).trans h

theorem Refuses.named {p : Rule α} {cs : List Char} (h : Refuses p cs) :
    Refuses (Rule.named p) cs := (result_named p cs).trans h

theorem word_takes (w rest : List Char) : Takes (word w) (w ++ rest) () rest := by
  simp [Takes, word]

theorem word_refuses {w cs : List Char} (h : w.isPrefixOf cs = false) : Refuses (word w) cs := by
  simp [Refuses, word, h]

theorem cut_takes {f : List Char → Option (α × List Char)} {cs rest : List Char} {a : α}
    (h : f cs = some (a, rest)) : Takes (cut f) cs a rest := h

/-- A repetition ends where the rule refuses the text. -/
theorem Refuses.many {p : Rule α} {cs : List Char} (h : Refuses p cs) :
    Takes (Rule.many p) cs [] cs := by
  unfold Takes Refuses at *
  rw [Rule.many]
  rcases hp : p cs with ⟨stuck, _ | taken⟩
  · rfl
  · rw [hp] at h
    cases h

/-- A repetition goes on while the rule takes something. -/
theorem Takes.many {p : Rule α} {cs mid rest : List Char} {a : α} {as : List α}
    (h : Takes p cs a mid) (shorter : mid.length < cs.length) (k : Takes (Rule.many p) mid as rest) :
    Takes (Rule.many p) cs (a :: as) rest := by
  unfold Takes at *
  rw [Rule.many]
  rcases hp : p cs with ⟨stuck, _ | taken⟩
  · rw [hp] at h
    cases h
  · rw [hp] at h
    cases h
    simp only [shorter, dite_true]
    rw [k]
    rfl

/-- A text is accepted as what the rule takes from it. -/
theorem Takes.parse {p : Rule α} {text rest : List Char} {a : α} (h : Takes p text a rest) :
    parse p text = .ok a := by
  unfold Takes at h
  unfold Grammar.parse
  rcases hp : p text with ⟨stuck, _ | taken⟩
  · rw [hp] at h
    cases h
  · rw [hp] at h
    cases h
    rfl

end Scriptorium.Grammar.Rule

import Scriptorium.Proofs.Grammar.Taking
import Scriptorium.Proofs.Text.Numeral
import Scriptorium.Script.Statement
import Scriptorium.Target.Formula

/-!
# Layouts of a script

A script is a sequence of tokens with any blanks and comments in front of each of
them and at its end. A layout says which, for each token by the number of tokens
from there on, so what is left of a script depends only on the tokens that are
left. Passing over space in front of a token stops exactly at the token: no token
begins with a blank or a slash, and a comment ends where it says.
-/

namespace Scriptorium.Script

open Grammar Grammar.Rule

/-! ## Space and tokens -/

/-- A comment up to the end of a line. -/
structure Remark where
  content : List Char
  within : '\n' ∉ content

/-- The spelling of a comment, without the end of the line. -/
def Remark.text (r : Remark) : List Char := '/' :: '/' :: r.content

/-- A blank or a whole comment. -/
inductive Space where
  | blank (c : Char) (h : isSpace c = true)
  | remark (r : Remark)
  | comment (content : List Char) (h : ¬ ['*', '/'] <:+: content)

/-- The spelling of a blank or comment. -/
def Space.text : Space → List Char
  | .blank c _ => [c]
  | .remark r => r.text ++ ['\n']
  | .comment content _ => '/' :: '*' :: content ++ ['*', '/']

/-- A name that a call may bear. -/
structure Identifier where
  spelling : List Char
  identifies : Text.isIdentifier spelling = true

/-- A part of a script that has no space in it. -/
inductive Token where
  | openParen
  | closeParen
  | openBrace
  | closeBrace
  | comma
  | semicolon
  | ifWord
  | elseWord
  | name (n : Identifier)
  | quoted (content : String)

/-- The spelling of a token. Quotes and backslashes in an argument have a backslash in front. -/
def Token.text : Token → List Char
  | .openParen => ['(']
  | .closeParen => [')']
  | .openBrace => ['{']
  | .closeBrace => ['}']
  | .comma => [',']
  | .semicolon => [';']
  | .ifWord => "if".toList
  | .elseWord => "else".toList
  | .name n => n.spelling
  | .quoted content => quoteText content.toList

/-- The space between the tokens of a script: what stands in front of the last so many tokens,
and a comment that the end of the script ends. -/
structure Layout where
  gap : Nat → List Space
  remark : Option Remark

namespace Layout

variable (l : Layout)

/-- The space in front of the last `n` tokens. -/
def front (n : Nat) : List Char := (l.gap n).flatMap Space.text

/-- The tokens with the space in front of each of them and at the end. -/
def text : List Token → List Char
  | [] => l.front 0 ++ (l.remark.map Remark.text).getD []
  | t :: ts => l.front (ts.length + 1) ++ (t.text ++ text ts)

/-- The tokens without the space in front of the first one. -/
def bare : List Token → List Char
  | [] => []
  | t :: ts => t.text ++ l.text ts

/-- What a script has in front of these last tokens. -/
def before (all ts : List Token) : List Char :=
  (l.text all).take ((l.text all).length - (l.bare ts).length)

/-- The line on which the first of these last tokens of a script begins. -/
def line (all ts : List Token) : Nat := (l.before all ts).count '\n' + 1

/-- The line of the first of these last tokens, told from the number of characters left. -/
def lineBy (lineOf : Nat → Nat) (ts : List Token) : Nat := lineOf (l.bare ts).length

end Layout

/-! ## Passing over space -/

section Skipping

variable {cs rest content : List Char}

theorem length_endOfComment? (h : endOfComment? cs = some rest) : rest.length < cs.length := by
  fun_induction endOfComment? cs with
  | case1 cs =>
    cases h
    simp only [List.length_cons]
    omega
  | case2 c cs _ ih =>
    have := ih h
    simp only [List.length_cons]
    omega
  | case3 => cases h

theorem endOfComment?_append (h : ¬ ['*', '/'] <:+: content) (rest : List Char) :
    endOfComment? (content ++ '*' :: '/' :: rest) = some rest := by
  induction content with
  | nil => rfl
  | cons c content ih =>
    have hrest : ¬ ['*', '/'] <:+: content := fun hinner =>
      h (hinner.trans (List.suffix_cons _ _).isInfix)
    -- The mark does not straddle the end of the comment: there a star follows the content.
    have hmark : ∀ ds, c = '*' → content ++ '*' :: '/' :: rest ≠ '/' :: ds := by
      rintro ds rfl heq
      cases content with
      | nil => cases heq
      | cons d content =>
        cases heq
        exact h ⟨[], content, rfl⟩
    rw [List.cons_append, endOfComment?]
    · exact ih hrest
    · exact hmark

theorem length_cutSpace? (h : cutSpace? cs = some rest) : rest.length < cs.length := by
  unfold cutSpace? at h
  split at h
  · next cs =>
    cases h
    have := (List.dropWhile_suffix (fun c => decide (c ≠ '\n')) (l := cs)).length_le
    simp only [List.length_cons]
    omega
  · next cs =>
    have := length_endOfComment? h
    simp only [List.length_cons]
    omega
  · split at h
    · cases h
      simp
    · cases h
  · cases h

/-- Any bound on the number of blanks and comments that the text cannot exceed is the same. -/
theorem skipSpaceFor_eq {m n : Nat} (hm : cs.length ≤ m) (hn : cs.length ≤ n) :
    skipSpaceFor m cs = skipSpaceFor n cs := by
  induction m generalizing n cs with
  | zero =>
    obtain rfl := List.length_eq_zero_iff.mp (Nat.le_zero.mp hm)
    cases n <;> rfl
  | succ m ih =>
    cases n with
    | zero =>
      obtain rfl := List.length_eq_zero_iff.mp (Nat.le_zero.mp hn)
      rfl
    | succ n =>
      rw [skipSpaceFor, skipSpaceFor]
      cases hcut : cutSpace? cs with
      | none => rfl
      | some rest =>
        have := length_cutSpace? hcut
        exact ih (by omega) (by omega)

theorem skipSpace_of_cut (h : cutSpace? cs = some rest) : skipSpace cs = skipSpace rest := by
  have hshorter := length_cutSpace? h
  obtain ⟨n, hn⟩ : ∃ n, cs.length = n + 1 := ⟨cs.length - 1, by omega⟩
  rw [skipSpace, hn, skipSpaceFor, h]
  exact skipSpaceFor_eq (by omega) (Nat.le_refl _)

theorem skipSpace_of_none (h : cutSpace? cs = none) : skipSpace cs = cs := by
  unfold skipSpace
  cases cs with
  | nil => rfl
  | cons c cs => rw [List.length_cons, skipSpaceFor, h]

theorem skipSpace_blank {c : Char} (h : isSpace c = true) (cs : List Char) :
    skipSpace (c :: cs) = skipSpace cs := by
  have hslash : c ≠ '/' := by
    rintro rfl
    cases h
  exact skipSpace_of_cut (by simp [cutSpace?, hslash, h])

theorem skipSpace_remark (r : Remark) (h : rest.head? = none ∨ rest.head? = some '\n') :
    skipSpace (r.text ++ rest) = skipSpace rest := by
  refine skipSpace_of_cut ?_
  have hwithin : ∀ c ∈ r.content, decide (c ≠ '\n') = true := fun c hc =>
    decide_eq_true fun h => r.within (h ▸ hc)
  rw [Remark.text, List.cons_append, List.cons_append, cutSpace?,
    List.dropWhile_append_of_pos hwithin]
  rcases rest with _ | ⟨c, rest⟩
  · rfl
  · rcases h with h | h
    · cases h
    · cases h
      rfl

theorem skipSpace_text (s : Space) (cs : List Char) : skipSpace (s.text ++ cs) = skipSpace cs := by
  cases s with
  | blank c h => exact skipSpace_blank h cs
  | remark r =>
    rw [Space.text, List.append_assoc, skipSpace_remark r (.inr rfl)]
    exact skipSpace_blank rfl cs
  | comment content h =>
    refine skipSpace_of_cut ?_
    have htext : (Space.comment content h).text ++ cs =
        '/' :: '*' :: (content ++ '*' :: '/' :: cs) := by
      simp [Space.text]
    rw [htext, cutSpace?, endOfComment?_append h]

theorem skipSpace_cons {c : Char} (h : isSpace c = false) (hslash : c ≠ '/') (cs : List Char) :
    skipSpace (c :: cs) = c :: cs := skipSpace_of_none (by simp [cutSpace?, h, hslash])

end Skipping

/-! ## The tokens of a layout -/

/-- What may stand in an identifier is no blank and begins no comment. -/
theorem not_space_of_part {c : Char} (h : Text.isIdentifierPart c = true) :
    isSpace c = false ∧ c ≠ '/' := by
  refine ⟨?_, fun hc => ?_⟩
  · rw [← Bool.not_eq_true]
    intro hc
    simp only [isSpace, Bool.or_eq_true, beq_iff_eq] at hc
    rcases hc with ((rfl | rfl) | rfl) | rfl <;> revert h <;> decide
  · subst hc
    revert h
    decide

theorem Identifier.part (n : Identifier) : ∀ c ∈ n.spelling, Text.isIdentifierPart c = true :=
  fun _ => Text.isIdentifierPart_of_mem n.identifies

/-- A token has at least one character, which is no blank and begins no comment. -/
theorem Token.tight (t : Token) : ∃ c cs, t.text = c :: cs ∧ isSpace c = false ∧ c ≠ '/' := by
  cases t with
  | name n =>
    obtain ⟨c, cs, hspelling, hstart, -⟩ := Text.isIdentifier_spelled n.identifies
    exact ⟨c, cs, hspelling, not_space_of_part (Text.isIdentifierPart_of_start hstart)⟩
  | quoted content => exact ⟨'"', _, rfl, by decide, by decide⟩
  | openParen | closeParen | openBrace | closeBrace | comma | semicolon | ifWord | elseWord =>
    exact ⟨_, _, rfl, by decide, by decide⟩

/-- These last tokens have at least one token in front of them. -/
def Behind (us ts : List Token) : Prop := ∃ t rest, ts = t :: rest ∧ us <:+ rest

theorem behind_cons {us ts : List Token} (t : Token) (h : us <:+ ts) : Behind us (t :: ts) :=
  ⟨t, ts, rfl, h⟩

theorem Behind.suffix {us ts : List Token} (h : Behind us ts) : us <:+ ts := by
  obtain ⟨t, rest, rfl, hrest⟩ := h
  exact hrest.trans (List.suffix_cons t rest)

theorem Behind.length_lt {us ts : List Token} (h : Behind us ts) : us.length < ts.length := by
  obtain ⟨t, rest, rfl, hrest⟩ := h
  exact Nat.lt_succ_of_le hrest.length_le

namespace Layout

variable (l : Layout)

theorem skipSpace_front (n : Nat) (cs : List Char) :
    skipSpace (l.front n ++ cs) = skipSpace cs := by
  unfold front
  induction l.gap n with
  | nil => rfl
  | cons s gap ih => rw [List.flatMap_cons, List.append_assoc, Script.skipSpace_text, ih]

/-- The first token is left as it is. -/
theorem skipSpace_bare (ts : List Token) : skipSpace (l.bare ts) = l.bare ts := by
  cases ts with
  | nil => rfl
  | cons t ts =>
    obtain ⟨c, cs, htext, hspace, hslash⟩ := t.tight
    rw [bare, htext, List.cons_append]
    exact skipSpace_cons hspace hslash _

/-- All space in front of the first token is passed over. -/
theorem skipSpace_text (ts : List Token) : skipSpace (l.text ts) = l.bare ts := by
  cases ts with
  | nil =>
    rw [text, skipSpace_front]
    cases l.remark with
    | none => rfl
    | some r =>
      have hremark : skipSpace (r.text ++ []) = skipSpace [] := skipSpace_remark r (.inl rfl)
      rwa [List.append_nil] at hremark
  | cons t ts =>
    rw [text, skipSpace_front]
    exact l.skipSpace_bare (t :: ts)

theorem bare_suffix (ts : List Token) : l.bare ts <:+ l.text ts := by
  cases ts with
  | nil => exact List.nil_suffix
  | cons t ts => exact ⟨_, rfl⟩

theorem text_suffix {ts us : List Token} (h : us <:+ ts) : l.text us <:+ l.text ts := by
  obtain ⟨vs, rfl⟩ := h
  induction vs with
  | nil => exact List.suffix_rfl
  | cons v vs ih =>
    refine ih.trans ⟨l.front ((vs ++ us).length + 1) ++ v.text, ?_⟩
    rw [List.append_assoc, List.cons_append, text]

theorem length_text_lt {ts us : List Token} (h : Behind us ts) :
    (l.text us).length < (l.bare ts).length := by
  obtain ⟨t, rest, rfl, hrest⟩ := h
  obtain ⟨c, cs, htext, -⟩ := t.tight
  have := (l.text_suffix hrest).length_le
  rw [bare, htext, List.length_append, List.length_cons]
  omega

theorem length_le_length_text (ts : List Token) : ts.length ≤ (l.text ts).length := by
  induction ts with
  | nil => exact Nat.zero_le _
  | cons t ts ih =>
    have := l.length_text_lt (behind_cons t (List.suffix_refl ts))
    have := (l.bare_suffix (t :: ts)).length_le
    rw [List.length_cons]
    omega

end Layout

/-! ## Rules on a layout -/

/-- The text is what is left when these tokens are left. The space in front of the first one may
have been passed over. -/
def Layout.Left (l : Layout) (ts : List Token) (cs : List Char) : Prop :=
  cs = l.text ts ∨ cs = l.bare ts

/-- At the first of these tokens the rule takes `a` and stops at the others. -/
def Reads {α : Type} (l : Layout) (p : Rule α) (ts : List Token) (a : α) (after : List Token) :
    Prop := ∃ left, Takes p (l.bare ts) a left ∧ l.Left after left

/-- Wherever a rule before has stopped, the rule takes `a` and stops at the other tokens. -/
def Resumes {α : Type} (l : Layout) (p : Rule α) (ts : List Token) (a : α) (after : List Token) :
    Prop := ∀ cs, l.Left ts cs → ∃ left, Takes p cs a left ∧ l.Left after left

section Laws

variable {α β : Type} {l : Layout} {p : Rule α} {f : α → Rule β} {ts mid after : List Token}
  {cs : List Char} {a : α} {b : β}

theorem Layout.Left.skip (h : l.Left ts cs) : skipSpace cs = l.bare ts := by
  rcases h with rfl | rfl
  · exact l.skipSpace_text ts
  · exact l.skipSpace_bare ts

theorem Layout.Left.length_le (h : l.Left ts cs) : cs.length ≤ (l.text ts).length := by
  rcases h with rfl | rfl
  · exact Nat.le_refl _
  · exact (l.bare_suffix ts).length_le

theorem Layout.Left.le_length (h : l.Left ts cs) : (l.bare ts).length ≤ cs.length := by
  rcases h with rfl | rfl
  · exact (l.bare_suffix ts).length_le
  · exact Nat.le_refl _

theorem result_spaced (p : Rule α) (cs : List Char) :
    (spaced p cs).result = (p (skipSpace cs)).result := by
  unfold spaced
  rw [result_andThen]
  rfl

theorem spaced_refuses (h : Refuses p (skipSpace cs)) : Refuses (spaced p) cs :=
  (result_spaced p cs).trans h

theorem Reads.spaced (h : Reads l p ts a after) : Resumes l (spaced p) ts a after := by
  intro cs hcs
  obtain ⟨left, htakes, hleft⟩ := h
  rw [← hcs.skip] at htakes
  exact ⟨left, (result_spaced p cs).trans htakes, hleft⟩

theorem Reads.andThen (h : Reads l p ts a mid) (k : Resumes l (f a) mid b after) :
    Reads l (andThen p f) ts b after := by
  obtain ⟨left, htakes, hleft⟩ := h
  obtain ⟨left', htakes', hleft'⟩ := k left hleft
  exact ⟨left', htakes.andThen htakes', hleft'⟩

theorem Resumes.andThen (h : Resumes l p ts a mid) (k : Resumes l (f a) mid b after) :
    Resumes l (andThen p f) ts b after := by
  intro cs hcs
  obtain ⟨left, htakes, hleft⟩ := h cs hcs
  obtain ⟨left', htakes', hleft'⟩ := k left hleft
  exact ⟨left', htakes.andThen htakes', hleft'⟩

theorem resumes_accept (l : Layout) (a : α) (ts : List Token) : Resumes l (accept a) ts a ts :=
  fun cs hcs => ⟨cs, accept_takes a cs, hcs⟩

theorem Reads.map (h : Reads l p ts a after) (g : α → β) : Reads l (map g p) ts (g a) after :=
  h.andThen (resumes_accept l (g a) after)

theorem Resumes.map (h : Resumes l p ts a after) (g : α → β) :
    Resumes l (map g p) ts (g a) after := h.andThen (resumes_accept l (g a) after)

theorem Reads.named (h : Reads l p ts a after) : Reads l (named p) ts a after := by
  obtain ⟨left, htakes, hleft⟩ := h
  exact ⟨left, htakes.named, hleft⟩

theorem Reads.orElse (h : Reads l p ts a after) (q : Rule α) :
    Reads l (orElse p q) ts a after := by
  obtain ⟨left, htakes, hleft⟩ := h
  exact ⟨left, htakes.orElse q, hleft⟩

theorem orElse_reads {q : Rule α} (h : Refuses p (l.bare ts)) (k : Reads l q ts a after) :
    Reads l (Rule.orElse p q) ts a after := by
  obtain ⟨left, htakes, hleft⟩ := k
  exact ⟨left, h.orElse_takes htakes, hleft⟩

theorem reads_nothing (l : Layout) (a : α) (ts : List Token) : Reads l (accept a) ts a ts :=
  ⟨l.bare ts, accept_takes a _, .inr rfl⟩

theorem reads_word (l : Layout) (t : Token) (ts : List Token) :
    Reads l (word t.text) (t :: ts) () ts := ⟨l.text ts, word_takes _ _, .inl rfl⟩

/-- The rule applies at one token after the other and refuses the last one. -/
inductive Repeats (l : Layout) (p : Rule α) : List Token → List α → List Token → Prop
  | done {ts : List Token} (h : Refuses p (l.bare ts)) : Repeats l p ts [] ts
  | more {ts mid after : List Token} {a : α} {as : List α} (h : Reads l p ts a mid)
    (hmid : Behind mid ts) (k : Repeats l p mid as after) : Repeats l p ts (a :: as) after

variable {as : List α}

theorem Repeats.many (h : Repeats l p ts as after) : Resumes l (many (spaced p)) ts as after := by
  induction h with
  | done h =>
    intro cs hcs
    have hrefuses : Refuses (Script.spaced p) cs := spaced_refuses (by rwa [hcs.skip])
    exact ⟨cs, hrefuses.many, hcs⟩
  | more h hmid _ ih =>
    intro cs hcs
    obtain ⟨left, htakes, hleft⟩ := h.spaced cs hcs
    obtain ⟨left', htakes', hleft'⟩ := ih left hleft
    have hshorter : left.length < cs.length :=
      calc left.length ≤ _ := hleft.length_le
        _ < _ := l.length_text_lt hmid
        _ ≤ cs.length := hcs.le_length
    exact ⟨left', htakes.many hshorter htakes', hleft'⟩

theorem Repeats.spacedMany (h : Repeats l p ts as after) :
    Reads l (spacedMany p) ts as after := by
  cases h with
  | done h => exact orElse_reads (h.andThen _) (reads_nothing l [] _)
  | more h _ k => exact (h.andThen (k.many.map _)).orElse _

end Laws

/-- Lines are counted by the line breaks in front. -/
theorem line_behind (cs : List Char) : (Position.behind cs).line = cs.count '\n' + 1 := by
  have hfold (p : Position) : (cs.foldl Position.after p).line = cs.count '\n' + p.line := by
    induction cs generalizing p with
    | nil => simp
    | cons c cs ih =>
      rw [List.foldl_cons, ih, List.count_cons]
      by_cases hc : c = '\n'
      · simp [Position.after, hc]
        omega
      · simp [Position.after, hc]
  exact hfold _

end Scriptorium.Script

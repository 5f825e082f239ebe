import Scriptorium.Proofs.Script.Layout
import Scriptorium.Proofs.Target.Pieces

/-!
# Scripts are read as they are written

A written statement is a statement with the choices that its spelling leaves open:
what stands behind `else` may be a block or, where it is a single branch, that
branch itself, and an empty block may be left out with its `else`. Under every
layout its tokens are read as the statement, with the line of every name.

The words `if` and `else` may begin the name of a call. A branch is tried first and
refuses such a call, since its own condition or block does not follow the word.
-/

namespace Scriptorium.Script

open Grammar Grammar.Rule

/-! ## Written statements -/

/-- A call as it is written. -/
structure WrittenCall where
  name : Identifier
  args : List String

namespace WrittenCall

/-- The arguments behind the first one, each behind a comma. -/
def furtherTokens : List String → List Token → List Token
  | [], after => after
  | arg :: args, after => .comma :: .quoted arg :: furtherTokens args after

/-- The arguments of a call. -/
def argTokens : List String → List Token → List Token
  | [], after => after
  | arg :: args, after => .quoted arg :: furtherTokens args after

/-- The tokens of a call in front of others. -/
def tokens (c : WrittenCall) (after : List Token) : List Token :=
  .name c.name :: .openParen :: argTokens c.args (.closeParen :: after)

/-- The call that is written in front of these tokens. Its line is that of its name. -/
def call (lineAt : List Token → Nat) (c : WrittenCall) (after : List Token) : Call :=
  ⟨String.ofList c.name.spelling, c.args, lineAt (c.tokens after)⟩

/-- A call named by a word of the grammar, with a comment in front and a quote in its argument. -/
example : (Layout.mk (fun n => if n = 5 then [.comment ['i', 'f'] (by decide)] else []) none).text
    ((WrittenCall.mk ⟨['e', 'l', 's', 'e'], by decide⟩ ["a\"b"]).tokens [.semicolon]) =
      "/*if*/else(\"a\\\"b\");".toList := by decide

end WrittenCall

/-- A statement as it is written. A brief branch has no `else` in front of nothing and no
braces around a single branch behind it. -/
inductive WrittenStatement where
  | call (c : WrittenCall)
  | branch (condition : WrittenCall) (thenBranch elseBranch : List WrittenStatement)
    (brief : Bool)

/-- How the second part of a branch is written. -/
inductive ElseForm where
  | omitted
  | nested
  | block

namespace ElseForm

/-- How a second part is written, as briefly as it can be or not. -/
def of (brief : Bool) : List WrittenStatement → ElseForm
  | [] => if brief then .omitted else .block
  | [.branch ..] => if brief then .nested else .block
  | _ => .block

/-- The tokens in front of the statements of the second part. -/
def opening : ElseForm → List Token → List Token
  | .omitted, after => after
  | .nested, after => .elseWord :: after
  | .block, after => .elseWord :: .openBrace :: after

/-- The tokens behind the statements of the second part. -/
def closing : ElseForm → List Token → List Token
  | .block, after => .closeBrace :: after
  | _, after => after

end ElseForm

namespace WrittenStatement

mutual

/-- The tokens of a statement in front of others. -/
def tokens : WrittenStatement → List Token → List Token
  | .call c, after => c.tokens (.semicolon :: after)
  | .branch condition thenBranch elseBranch brief, after =>
    let form := ElseForm.of brief elseBranch
    .ifWord :: .openParen :: condition.tokens (.closeParen :: .openBrace ::
      allTokens thenBranch (.closeBrace ::
        form.opening (allTokens elseBranch (form.closing after))))

/-- The tokens of statements in front of others. -/
def allTokens : List WrittenStatement → List Token → List Token
  | [], after => after
  | f :: fs, after => f.tokens (allTokens fs after)

end

mutual

/-- The statement that is written in front of these tokens. -/
def statement (lineAt : List Token → Nat) : WrittenStatement → List Token → Statement
  | .call c, after => .call (c.call lineAt (.semicolon :: after))
  | .branch condition thenBranch elseBranch brief, after =>
    let form := ElseForm.of brief elseBranch
    let second := form.opening (allTokens elseBranch (form.closing after))
    .branch
      (condition.call lineAt
        (.closeParen :: .openBrace :: allTokens thenBranch (.closeBrace :: second)))
      (statements lineAt thenBranch (.closeBrace :: second))
      (statements lineAt elseBranch (form.closing after))

/-- The statements that are written in front of these tokens. -/
def statements (lineAt : List Token → Nat) : List WrittenStatement → List Token → List Statement
  | [], _ => []
  | f :: fs, after => f.statement lineAt (allTokens fs after) :: statements lineAt fs after

end

end WrittenStatement

/-! ## The tokens behind a part -/

section Behind

variable {us after : List Token}

theorem suffix_furtherTokens (args : List String) (h : us <:+ after) :
    us <:+ WrittenCall.furtherTokens args after := by
  induction args with
  | nil => exact h
  | cons arg args ih => exact (behind_cons _ (behind_cons _ ih).suffix).suffix

theorem suffix_argTokens (args : List String) (h : us <:+ after) :
    us <:+ WrittenCall.argTokens args after := by
  cases args with
  | nil => exact h
  | cons arg args => exact (behind_cons _ (suffix_furtherTokens args h)).suffix

theorem WrittenCall.behind_tokens (c : WrittenCall) (h : us <:+ after) :
    Behind us (c.tokens after) :=
  behind_cons _ (behind_cons _ (suffix_argTokens c.args (behind_cons _ h).suffix)).suffix

namespace WrittenStatement

theorem suffix_opening (a : ElseForm) (h : us <:+ after) : us <:+ a.opening after := by
  cases a with
  | omitted => exact h
  | nested => exact (behind_cons _ h).suffix
  | block => exact (behind_cons _ (behind_cons _ h).suffix).suffix

theorem suffix_closing (a : ElseForm) (h : us <:+ after) : us <:+ a.closing after := by
  cases a with
  | omitted | nested => exact h
  | block => exact (behind_cons _ h).suffix

mutual

theorem behind_tokens (f : WrittenStatement) {us after : List Token} (h : us <:+ after) :
    Behind us (f.tokens after) := by
  cases f with
  | call c => exact c.behind_tokens (behind_cons _ h).suffix
  | branch condition thenBranch elseBranch brief =>
    have hsecond := suffix_opening (ElseForm.of brief elseBranch)
      (suffix_allTokens elseBranch (suffix_closing (ElseForm.of brief elseBranch) h))
    have hfirst := suffix_allTokens thenBranch (behind_cons .closeBrace hsecond).suffix
    have hcondition := condition.behind_tokens
      (behind_cons .closeParen (behind_cons .openBrace hfirst).suffix).suffix
    exact behind_cons _ (behind_cons _ hcondition.suffix).suffix

theorem suffix_allTokens (fs : List WrittenStatement) {us after : List Token}
    (h : us <:+ after) : us <:+ allTokens fs after := by
  cases fs with
  | nil => exact h
  | cons f fs => exact (behind_tokens f (suffix_allTokens fs h)).suffix

end

end WrittenStatement

end Behind

/-! ## Calls -/

section Calls

variable (l : Layout) (lineOf : Nat → Nat)

/-- A name ends where space or a parenthesis follows. -/
theorem name_ends (ts : List Token) : ∃ c cs, l.text (.openParen :: ts) = c :: cs ∧
    Text.isIdentifierPart c = false := by
  rw [Layout.text, Layout.front]
  cases l.gap _ with
  | nil => exact ⟨'(', _, rfl, by decide⟩
  | cons s gap =>
    cases s with
    | blank c h =>
      refine ⟨c, _, rfl, ?_⟩
      rw [← Bool.not_eq_true]
      intro hpart
      have := (not_space_of_part hpart).1
      rw [h] at this
      cases this
    | remark r => exact ⟨'/', _, rfl, by decide⟩
    | comment content h => exact ⟨'/', _, rfl, by decide⟩

theorem reads_identifier (n : Identifier) (ts : List Token) :
    Reads l identifier (.name n :: .openParen :: ts) (String.ofList n.spelling)
      (.openParen :: ts) := by
  obtain ⟨c, cs, hspelling, hstart, hpart⟩ := Text.isIdentifier_spelled n.identifies
  obtain ⟨d, ds, htext, hd⟩ := name_ends l ts
  refine ⟨l.text (.openParen :: ts), Takes.named (cut_takes ?_), .inl rfl⟩
  rw [Layout.bare, Token.text, hspelling, List.cons_append, cutIdentifier, if_pos hstart,
    List.takeWhile_append_of_pos hpart, List.dropWhile_append_of_pos hpart, htext]
  simp [hd]

theorem identifier_refuses {cs : List Char}
    (h : ∀ c ∈ cs.head?, Text.isIdentifierStart c = false) : Refuses identifier cs := by
  refine Refuses.named ?_
  cases cs with
  | nil => rfl
  | cons c cs => simp [Refuses, cut, cutIdentifier, h c rfl]

theorem call_refuses {cs : List Char} (h : ∀ c ∈ cs.head?, Text.isIdentifierStart c = false) :
    Refuses (call lineOf) cs :=
  Refuses.named (p := fun cs => (andThen identifier _) cs) ((identifier_refuses h).andThen _)

theorem cutContent_quotedBody (cs rest : List Char) :
    cutContent (Target.quotedBody cs ++ '"' :: rest) = (cs, '"' :: rest) := by
  induction cs with
  | nil => simp [Target.quotedBody, cutContent]
  | cons c cs ih =>
    have hcons : Target.quotedBody (c :: cs) =
        (if c = '"' || c = '\\' then ['\\', c] else [c]) ++ Target.quotedBody cs := rfl
    rw [hcons]
    by_cases hq : c = '"'
    · subst hq
      simp [cutContent, escaped, ih]
    · by_cases hb : c = '\\'
      · subst hb
        simp [cutContent, escaped, ih]
      · simp [cutContent, hq, hb, ih]

theorem reads_quoted (content : String) (ts : List Token) :
    Reads l quoted (.quoted content :: ts) content ts := by
  have hcut := cut_takes (f := fun cs => some (cutContent cs))
    (congrArg some (cutContent_quotedBody content.toList (l.text ts)))
  have hopen : l.bare (.quoted content :: ts) =
      ['"'] ++ (Target.quotedBody content.toList ++ '"' :: l.text ts) := by
    simp [Layout.bare, Token.text, quoteText, Target.quotedBody]
  have hread : Takes quoted (['"'] ++ (Target.quotedBody content.toList ++ '"' :: l.text ts))
      (String.ofList content.toList) (l.text ts) :=
    ((word_takes _ _).andThen (hcut.andThen ((word_takes ['"'] _).map _))).named
  rw [← hopen, String.ofList_toList] at hread
  exact ⟨l.text ts, hread, .inl rfl⟩

theorem word_refuses_head {c : Char} {w cs : List Char} (h : cs.head? ≠ some c) :
    Refuses (word (c :: w)) cs := by
  refine word_refuses ?_
  rcases cs with _ | ⟨d, cs⟩
  · rfl
  · have hd : c ≠ d := fun hd => h (by rw [hd]; rfl)
    simp [List.isPrefixOf, hd]

theorem repeats_further (args : List String) (after : List Token) :
    Repeats l (andThen (word [',']) fun _ => spaced quoted)
      (WrittenCall.furtherTokens args (.closeParen :: after)) args (.closeParen :: after) := by
  induction args with
  | nil => exact .done (Refuses.andThen (word_refuses rfl) _)
  | cons arg args ih =>
    exact .more ((reads_word l .comma _).andThen (reads_quoted l arg _).spaced)
      (behind_cons _ (List.suffix_cons _ _)) ih

theorem reads_arguments (args : List String) (after : List Token) :
    Reads l arguments (WrittenCall.argTokens args (.closeParen :: after)) args
      (.closeParen :: after) := by
  cases args with
  | nil =>
    have hrefuses : Refuses quoted (l.bare (.closeParen :: after)) :=
      Refuses.named ((word_refuses_head (by simp [Layout.bare, Token.text])).andThen _)
    exact orElse_reads (hrefuses.andThen _) (reads_nothing l [] _)
  | cons arg args =>
    have hfurther := (repeats_further l args after).spacedMany.spaced
    exact ((reads_quoted l arg _).andThen (hfurther.map (arg :: ·))).orElse _

/-- A call is read with the line at which its name begins. -/
theorem reads_call (c : WrittenCall) (after : List Token) :
    Reads l (call lineOf) (c.tokens after) (c.call (l.lineBy lineOf) after)
      after := by
  have hread : Reads l
      (andThen identifier fun name =>
        andThen (spacedWord "(") fun _ =>
        andThen (spaced arguments) fun args =>
        map (fun _ => ⟨name, args, lineOf (l.bare (c.tokens after)).length⟩) (spacedWord ")"))
      (c.tokens after) (c.call (l.lineBy lineOf) after) after := by
    refine (reads_identifier l c.name _).andThen ?_
    refine (reads_word l .openParen _).spaced.andThen ?_
    refine (reads_arguments l c.args after).spaced.andThen ?_
    exact (reads_word l .closeParen after).spaced.map _
  obtain ⟨left, htakes, hleft⟩ := hread
  exact ⟨left, Takes.named htakes, hleft⟩

end Calls

/-! ## Words that begin a name -/

section Words

variable {α : Type}

/-- What begins with a word that may begin a name, and goes on neither in the name nor behind it,
refuses the name. -/
theorem word_refuses_name {w n rest : List Char} {f : Unit → Rule α}
    (hw : w.all Text.isIdentifierPart = true) (hn : ∀ c ∈ n, Text.isIdentifierPart c = true)
    (hrest : ∃ c cs, rest = c :: cs ∧ Text.isIdentifierPart c = false)
    (hwithin : ∀ c cs, (∀ d ∈ c :: cs, Text.isIdentifierPart d = true) →
      Refuses (f ()) (c :: cs ++ rest))
    (hbehind : Refuses (f ()) rest) : Refuses (andThen (word w) f) (n ++ rest) := by
  cases hpre : w.isPrefixOf (n ++ rest) with
  | false => exact (word_refuses hpre).andThen f
  | true =>
    obtain ⟨left, hleft⟩ := List.isPrefixOf_iff_prefix.mp hpre
    rw [← hleft]
    refine (word_takes w left).andThen_refuses ?_
    rcases List.append_eq_append_iff.mp hleft with ⟨inner, rfl, rfl⟩ | ⟨outer, rfl, rfl⟩
    · cases inner with
      | nil => exact hbehind
      | cons c cs => exact hwithin c cs fun d hd => hn d (List.mem_append_right w hd)
    · -- The word cannot reach behind the name.
      obtain ⟨c, cs, houter, hc⟩ := hrest
      cases outer with
      | nil => exact hbehind
      | cons d ds =>
        cases houter
        have hpart := List.all_eq_true.mp hw c (List.mem_append_right n (List.mem_cons_self ..))
        rw [hpart] at hc
        cases hc

theorem skipSpace_part {c : Char} (h : Text.isIdentifierPart c = true) (cs : List Char) :
    skipSpace (c :: cs) = c :: cs :=
  skipSpace_cons (not_space_of_part h).1 (not_space_of_part h).2 cs

theorem ne_of_part {c d : Char} (hc : Text.isIdentifierPart c = true)
    (hd : Text.isIdentifierPart d = false) : c ≠ d := by
  rintro rfl
  rw [hc] at hd
  cases hd

variable (l : Layout) (lineOf : Nat → Nat)

/-- Behind its opening parenthesis a call has no call. -/
theorem call_refuses_args (args : List String) (after : List Token) :
    Refuses (call lineOf) (l.bare (WrittenCall.argTokens args (.closeParen :: after))) := by
  refine call_refuses lineOf ?_
  cases args <;> simp [WrittenCall.argTokens, Layout.bare, Token.text, quoteText] <;> decide

/-- A name with arguments behind it is no branch. -/
theorem branch_refuses_name (statement nested : Rule Statement) {n : List Char}
    (hn : ∀ c ∈ n, Text.isIdentifierPart c = true) (args : List String) (after : List Token) :
    Refuses (branch lineOf statement nested)
      (n ++ l.text (.openParen :: WrittenCall.argTokens args (.closeParen :: after))) := by
  refine Refuses.named (word_refuses_name (by rfl) hn (name_ends l _) ?_ ?_)
  · intro c cs hcs
    have hc := hcs c (List.mem_cons_self ..)
    refine Refuses.andThen (spaced_refuses (word_refuses_head ?_)) _
    rw [List.cons_append, skipSpace_part hc]
    simpa using ne_of_part hc (by decide)
  · obtain ⟨left, htakes, hleft⟩ := (reads_word l .openParen
      (WrittenCall.argTokens args (.closeParen :: after))).spaced _ (.inl rfl)
    refine htakes.andThen_refuses (Refuses.andThen (spaced_refuses ?_) _)
    rw [hleft.skip]
    exact call_refuses_args l lineOf args after

theorem branchFor_refuses_name (fuel : Nat) {n : List Char}
    (hn : ∀ c ∈ n, Text.isIdentifierPart c = true) (args : List String) (after : List Token) :
    Refuses (branchFor lineOf fuel)
      (n ++ l.text (.openParen :: WrittenCall.argTokens args (.closeParen :: after))) := by
  cases fuel with
  | zero => rfl
  | succ fuel => exact branch_refuses_name l lineOf _ _ hn args after

theorem branchFor_refuses (fuel : Nat) {cs : List Char} (h : cs.head? ≠ some 'i') :
    Refuses (branchFor lineOf fuel) cs := by
  cases fuel with
  | zero => rfl
  | succ fuel => exact Refuses.named ((word_refuses_head h).andThen _)

theorem statementFor_refuses (fuel : Nat) {cs : List Char}
    (h : ∀ c ∈ cs.head?, Text.isIdentifierStart c = false) :
    Refuses (statementFor lineOf fuel) cs := by
  cases fuel with
  | zero => rfl
  | succ fuel =>
    have hi : cs.head? ≠ some 'i' := fun hi => absurd (h 'i' hi) (by decide)
    exact (branchFor_refuses lineOf fuel hi).orElse
      (Refuses.named ((call_refuses lineOf h).andThen _))

theorem block_refuses (statement : Rule Statement) {cs : List Char} (h : cs.head? ≠ some '{') :
    Refuses (block statement) cs := Refuses.named ((word_refuses_head h).andThen _)

end Words

/-! ## Statements -/

section Statements

/-- The tokens end a script or a block or begin a statement, so a branch in front of them has
ended. -/
inductive Onward : List Token → Prop
  | nothing : Onward []
  | closeBrace (ts : List Token) : Onward (.closeBrace :: ts)
  | branch (ts : List Token) : Onward (.ifWord :: ts)
  | call (c : WrittenCall) (after : List Token) : Onward (c.tokens after)

open WrittenStatement

theorem onward_tokens (f : WrittenStatement) (after : List Token) : Onward (f.tokens after) := by
  cases f with
  | call c => exact .call c _
  | branch condition thenBranch elseBranch brief => exact .branch _

theorem onward_allTokens (fs : List WrittenStatement) {after : List Token} (h : Onward after) :
    Onward (allTokens fs after) := by
  cases fs with
  | nil => exact h
  | cons f fs => exact onward_tokens f _

variable (l : Layout) (lineOf : Nat → Nat)

/-- What may follow a branch is not read as its second part, even if it is a call whose name
begins with `else`. -/
theorem else_refuses (fuel : Nat) (statement : Rule Statement) {ts : List Token} (h : Onward ts) :
    Refuses (andThen (word "else".toList) fun _ =>
      spaced (orElse (map (fun b => [b]) (branchFor lineOf fuel)) (block statement)))
      (l.bare ts) := by
  cases h with
  | nothing => exact Refuses.andThen (word_refuses rfl) _
  | closeBrace ts => exact Refuses.andThen (word_refuses rfl) _
  | branch ts => exact Refuses.andThen (word_refuses rfl) _
  | call c after =>
    refine word_refuses_name (by rfl) c.name.part (name_ends l _) ?_ ?_
    · intro d ds hds
      have hd := hds d (List.mem_cons_self ..)
      refine spaced_refuses ?_
      rw [List.cons_append, skipSpace_part hd]
      refine Refuses.orElse ?_ (block_refuses statement ?_)
      · exact (branchFor_refuses_name l lineOf fuel hds c.args after).map _
      · simpa using ne_of_part hd (by decide)
    · refine spaced_refuses ?_
      rw [l.skipSpace_text]
      exact ((branchFor_refuses lineOf fuel (by simp [Layout.bare, Token.text])).map _).orElse
        (block_refuses statement (by simp [Layout.bare, Token.text]))

theorem reads_callStatement (c : WrittenCall) (after : List Token) :
    Reads l (callStatement lineOf) (c.tokens (.semicolon :: after))
      (.call (c.call (l.lineBy lineOf) (.semicolon :: after))) after := by
  refine Reads.named ((reads_call l lineOf c _).andThen ?_)
  exact (reads_word l .semicolon after).spaced.map _

theorem reads_block {statement : Rule Statement} {ts after : List Token} {body : List Statement}
    (h : Repeats l statement ts body (.closeBrace :: after)) :
    Reads l (block statement) (.openBrace :: ts) body after := by
  refine Reads.named ((reads_word l .openBrace ts).andThen ?_)
  refine h.spacedMany.spaced.andThen ?_
  exact (reads_word l .closeBrace after).spaced.map _

/-- The rule reads the statements of a kind from at most `n` tokens, those behind included. -/
def ReadsUpTo (n : Nat) (kind : WrittenStatement → Prop) (p : Rule Statement) : Prop :=
  ∀ f after, kind f → Onward after → (f.tokens after).length ≤ n →
    Reads l p (f.tokens after) (f.statement (l.lineBy lineOf) after) after

variable {l lineOf} {n : Nat} {statement : Rule Statement} {after : List Token}

theorem repeats_statements (hread : ReadsUpTo l lineOf n (fun _ => True) statement)
    (hafter : Onward after) (hstop : Refuses statement (l.bare after)) {fs : List WrittenStatement}
    (hn : (allTokens fs after).length ≤ n) : Repeats l statement (allTokens fs after)
      (statements (l.lineBy lineOf) fs after) after := by
  induction fs with
  | nil => exact .done hstop
  | cons f fs ih =>
    have hbehind := behind_tokens f (List.suffix_refl (allTokens fs after))
    have hshorter := hbehind.length_lt
    rw [allTokens] at hn
    exact .more (hread f _ trivial (onward_allTokens fs hafter) hn) hbehind (ih (by omega))

/-- What stands between braces is read from at most `n` tokens. -/
theorem reads_braced {fuel : Nat}
    (hread : ReadsUpTo l lineOf n (fun _ => True) (statementFor lineOf fuel))
    {fs : List WrittenStatement} (hn : (allTokens fs (.closeBrace :: after)).length ≤ n) :
    Reads l (block (statementFor lineOf fuel)) (.openBrace :: allTokens fs (.closeBrace :: after))
      (statements (l.lineBy lineOf) fs (.closeBrace :: after)) after :=
  reads_block l (repeats_statements hread (.closeBrace after)
    (statementFor_refuses lineOf fuel (by simp [Layout.bare, Token.text]; decide)) hn)

/-- The statement is a branch. -/
def WrittenStatement.IsBranch : WrittenStatement → Prop
  | .call _ => False
  | .branch .. => True

theorem ElseForm.cases_of (brief : Bool) (fs : List WrittenStatement) :
    fs = [] ∧ ElseForm.of brief fs = .omitted ∨
      (∃ f : WrittenStatement, f.IsBranch ∧ fs = [f] ∧ ElseForm.of brief fs = .nested) ∨
      ElseForm.of brief fs = .block := by
  unfold ElseForm.of
  split
  · cases brief <;> simp
  · next condition thenBranch elseBranch inner =>
    cases brief
    · exact .inr (.inr rfl)
    · exact .inr (.inl ⟨.branch condition thenBranch elseBranch inner, trivial, rfl, rfl⟩)
  · exact .inr (.inr rfl)

theorem reads_else {q : Rule (List Statement)} {ts : List Token} {second : List Statement}
    (h : Resumes l q ts second after) :
    Reads l (optional <| andThen (word "else".toList) fun _ => q) (.elseWord :: ts) (some second)
      after := by
  have helse : Reads l (andThen (word "else".toList) fun _ => q) (.elseWord :: ts) second after :=
    (reads_word l .elseWord ts).andThen h
  exact (helse.map some).orElse _

/-- The second part of a branch is read, whether it is left out, a branch itself or a block. -/
theorem reads_second {fuel : Nat}
    (hread : ReadsUpTo l lineOf n (fun _ => True) (statementFor lineOf fuel))
    (hnested : ReadsUpTo l lineOf n IsBranch (branchFor lineOf fuel)) (hafter : Onward after)
    (brief : Bool) (fs : List WrittenStatement)
    (hn : (allTokens fs ((ElseForm.of brief fs).closing after)).length ≤ n) :
    ∃ second, Reads l
      (optional <| andThen (word "else".toList) fun _ => spaced <|
        orElse (map (fun b => [b]) (branchFor lineOf fuel)) (block (statementFor lineOf fuel)))
      ((ElseForm.of brief fs).opening (allTokens fs ((ElseForm.of brief fs).closing after)))
      second after ∧
    second.getD [] = statements (l.lineBy lineOf) fs ((ElseForm.of brief fs).closing after) := by
  rcases ElseForm.cases_of brief fs with ⟨rfl, hform⟩ | ⟨f, hf, rfl, hform⟩ | hform
  · rw [hform]
    have hrefuses := else_refuses l lineOf fuel (statementFor lineOf fuel) hafter
    exact ⟨none, orElse_reads (hrefuses.map _) (reads_nothing l none after), rfl⟩
  · rw [hform] at hn ⊢
    have hbranch := (hnested f after hf hafter hn).map fun b => [b]
    exact ⟨_, reads_else (hbranch.orElse _).spaced, rfl⟩
  · rw [hform] at hn ⊢
    have hrefuses : Refuses (branchFor lineOf fuel)
        (l.bare (.openBrace :: allTokens fs (.closeBrace :: after))) :=
      branchFor_refuses lineOf fuel (by simp [Layout.bare, Token.text])
    exact ⟨_, reads_else (orElse_reads (hrefuses.map _) (reads_braced hread hn)).spaced, rfl⟩

theorem reads_branch {fuel : Nat}
    (hread : ReadsUpTo l lineOf n (fun _ => True) (statementFor lineOf fuel))
    (hnested : ReadsUpTo l lineOf n IsBranch (branchFor lineOf fuel)) :
    ReadsUpTo l lineOf (n + 1) IsBranch
      (branch lineOf (statementFor lineOf fuel) (branchFor lineOf fuel)) := by
  intro f after hf hafter hn
  cases f with
  | call c => cases hf
  | branch condition thenBranch elseBranch brief =>
    let form := ElseForm.of brief elseBranch
    let inner := allTokens elseBranch (form.closing after)
    let rest := form.opening inner
    let body := allTokens thenBranch (.closeBrace :: rest)
    have hblock : Behind body (.closeParen :: .openBrace :: body) :=
      behind_cons _ (behind_cons _ (List.suffix_refl body)).suffix
    have hcondition : body.length < (condition.tokens (.closeParen :: .openBrace :: body)).length :=
      (condition.behind_tokens hblock.suffix).length_lt
    have hbody : rest.length < body.length :=
      (suffix_allTokens thenBranch (List.suffix_refl (Token.closeBrace :: rest))).length_le
    have hrest : inner.length ≤ rest.length :=
      (suffix_opening form (List.suffix_refl inner)).length_le
    have htotal : (condition.tokens (.closeParen :: .openBrace :: body)).length + 2 ≤ n + 1 := hn
    obtain ⟨second, hsecond, hstatements⟩ := reads_second hread hnested hafter brief elseBranch
      (show inner.length ≤ n by omega)
    have hthen := reads_braced hread (show body.length ≤ n by omega)
    have hstatement : (WrittenStatement.branch condition thenBranch elseBranch brief).statement
        (l.lineBy lineOf) after = .branch
          (condition.call (l.lineBy lineOf) (.closeParen :: .openBrace :: body))
          (statements (l.lineBy lineOf) thenBranch (.closeBrace :: rest)) (second.getD []) := by
      rw [hstatements]
      rfl
    rw [hstatement]
    refine Reads.named ((reads_word l .ifWord _).andThen ?_)
    refine (reads_word l .openParen _).spaced.andThen ?_
    refine (reads_call l lineOf condition _).spaced.andThen ?_
    refine (reads_word l .closeParen _).spaced.andThen ?_
    exact hthen.spaced.andThen (hsecond.spaced.map _)

/-- With enough fuel for its tokens, a statement is read, and a branch also as a branch. -/
theorem reads_statementFor (l : Layout) (lineOf : Nat → Nat) (fuel : Nat) :
    ReadsUpTo l lineOf (fuel / 2) (fun _ => True) (statementFor lineOf fuel) ∧
      ReadsUpTo l lineOf ((fuel + 1) / 2) IsBranch (branchFor lineOf fuel) := by
  induction fuel with
  | zero =>
    have hempty (f : WrittenStatement) (after : List Token) : ¬ (f.tokens after).length ≤ 0 := by
      have := (behind_tokens f (List.suffix_refl after)).length_lt
      omega
    exact ⟨fun f after _ _ hn => absurd hn (hempty f after),
      fun f after _ _ hn => absurd hn (hempty f after)⟩
  | succ fuel ih =>
    obtain ⟨hread, hnested⟩ := ih
    constructor
    · intro f after _ hafter hn
      cases f with
      | branch condition thenBranch elseBranch brief =>
        have hbranch : IsBranch (.branch condition thenBranch elseBranch brief) := trivial
        exact (hnested _ after hbranch hafter hn).orElse _
      | call c =>
        exact orElse_reads (branchFor_refuses_name l lineOf fuel c.name.part c.args _)
          (reads_callStatement l lineOf c after)
    · have hbound : (fuel + 1 + 1) / 2 = fuel / 2 + 1 := by omega
      rw [hbound]
      have hfewer : ReadsUpTo l lineOf (fuel / 2) IsBranch (branchFor lineOf fuel) :=
        fun f after hf hafter hn => hnested f after hf hafter (by omega)
      exact reads_branch hread hfewer

end Statements

/-- Under every layout a script is accepted and read as the statements that are written, each
call with its arguments and the line on which its name begins. -/
theorem parseScript_text (l : Layout) (fs : List WrittenStatement) :
    parseScript (l.text (WrittenStatement.allTokens fs [])) =
      .ok (WrittenStatement.statements (l.line (WrittenStatement.allTokens fs [])) fs []) := by
  let ts := WrittenStatement.allTokens fs []
  let lineOf := fun remaining => (Position.ofRemaining (l.text ts) remaining).line
  have hline : l.lineBy lineOf = l.line ts := funext fun us => line_behind _
  have hfuel : ts.length ≤ (2 * (l.text ts).length + 2) / 2 := by
    have := l.length_le_length_text ts
    omega
  have hstatements := repeats_statements (reads_statementFor l lineOf _).1 .nothing
    (statementFor_refuses lineOf _ (by simp [Layout.bare])) hfuel
  have hend : Reads l endOfText [] () [] := ⟨[], rfl, .inr rfl⟩
  have hread : Resumes l
      (andThen (spaced (spacedMany (statementFor lineOf (2 * (l.text ts).length + 2)))) fun body =>
        map (fun _ => body) (spaced endOfText))
      ts (WrittenStatement.statements (l.lineBy lineOf) fs []) [] :=
    hstatements.spacedMany.spaced.andThen (hend.spaced.map _)
  obtain ⟨left, htakes, -⟩ := hread _ (.inl rfl)
  have hscript : Takes (script (l.text ts)) (l.text ts)
      (WrittenStatement.statements (l.line ts) fs []) left := by
    rw [← hline]
    exact htakes.named
  exact hscript.parse

end Scriptorium.Script

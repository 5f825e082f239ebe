import Scriptorium.Proofs.Expression.Language
import Scriptorium.Proofs.Target.Safety
import Scriptorium.Proofs.Unit.Compilation

/-!
# Texts between quotes

A text between single quotes is one token and one literal, whatever quotes,
backslashes, operation symbols or blanks it holds, and its value is the text as
the tokens show it. Two private-use characters are shown as the blanks that they
stand for, so a text keeps its content exactly when it has neither of them.
-/

namespace Scriptorium.Expression

/-- No character of the text ends a token between quotes or is a quote. -/
def Quotable (cs : List Char) : Prop :=
  ∀ c ∈ cs, c ≠ '\'' ∧ (Text.isBlank c = true → c = ' ' ∨ c = '\t')

instance (cs : List Char) : Decidable (Quotable cs) :=
  List.decidableBAll (fun c => c ≠ '\'' ∧ (Text.isBlank c = true → c = ' ' ∨ c = '\t')) cs

/-- The text between single quotes. -/
def inQuotes (cs : List Char) : List Char := '\'' :: cs ++ ['\'']

section Tokens

variable {cs : List Char}

theorem trim_inQuotes (cs : List Char) : Text.trim (inQuotes cs) = inQuotes cs := by
  have hquote : Text.isBlank '\'' = false := by decide
  simp [Text.trim, Text.trimStart, Text.trimEnd, inQuotes, hquote]

theorem cutTokens_quoted (h : Quotable cs) :
    cutTokens true (cs ++ ['\'']) = (cs.map readMark ++ ['\''], []) := by
  induction cs with
  | nil => rfl
  | cons c cs ih =>
    obtain ⟨⟨hquote, hblank⟩, hrest⟩ := List.forall_mem_cons.mp h
    have hcuts : cuts true c = false := by
      cases hc : Text.isBlank c with
      | false => simp [cuts, hc]
      | true => rcases hblank hc with rfl | rfl <;> decide
    rw [List.cons_append, cutTokens, if_neg hquote, ih hrest, hcuts]
    rfl

/-- A text between quotes is one token, with the marks in it read. -/
theorem tokenize_inQuotes (h : Quotable cs) :
    tokenize (inQuotes cs) = [inQuotes (cs.map readMark)] := by
  have hcut : cutTokens false (inQuotes cs) = (inQuotes (cs.map readMark), []) := by
    rw [inQuotes, List.cons_append, cutTokens, if_pos rfl, Bool.not_false, cutTokens_quoted h]
    rfl
  rw [tokenize, trim_inQuotes, hcut]
  rfl

theorem not_mem_map_readMark (h : Quotable cs) : '\'' ∉ cs.map readMark := by
  intro hmem
  obtain ⟨c, hc, hread⟩ := List.mem_map.mp hmem
  unfold readMark at hread
  split at hread
  · revert hread
    decide
  · split at hread
    · revert hread
      decide
    · exact (h c hc).1 hread

theorem readMark_eq_self {c : Char} : readMark c = c ↔ spaceMark ≠ c ∧ tabMark ≠ c := by
  unfold readMark
  split
  · next hspace =>
    subst hspace
    decide
  · next hspace =>
    split
    · next htab =>
      subst htab
      decide
    · next htab => exact ⟨fun _ => ⟨Ne.symm hspace, Ne.symm htab⟩, fun _ => rfl⟩

/-- The marks are the only characters that are shown as others. -/
theorem map_readMark_eq_self : cs.map readMark = cs ↔ spaceMark ∉ cs ∧ tabMark ∉ cs := by
  induction cs with
  | nil => simp
  | cons c cs ih =>
    rw [List.map_cons, List.cons.injEq, readMark_eq_self, ih]
    simp only [List.mem_cons, not_or]
    exact and_and_and_comm

end Tokens

/-! ## What a text between quotes becomes -/

section Values

variable {cs : List Char}

theorem sentence_inQuotes (types : Registry) (t : VariableTable) (h : Quotable cs) {source : String}
    (hsource : source.toList = inQuotes cs) :
    (sentence t source).run types = .ok (.computed .string (.string (cs.map readMark)) []) := by
  have hclassify : classify t (inQuotes (cs.map readMark)) = _ :=
    classify_string t (not_mem_map_readMark h)
  rw [sentence, hsource, tokenize_inQuotes h]
  simp only [readTokens, advance, hclassify, Inquiry.run_bind, Inquiry.run_pure]
  rfl

/-- The target code of a string literal is read as the literal. -/
theorem parseTarget_string (content : List Char) :
    Target.parseTarget (Sentence.computed .string (.string content) []).targetCode.text.toList =
      .ok ⟨.primitive .string, .literal (.string (String.ofList content))⟩ := by
  have hspelled : (Formula.computed .string ⟨⟨.string content, []⟩, []⟩).Spelled :=
    ⟨⟨rfl, nofun⟩, nofun⟩
  have hcode : (Formula.computed .string ⟨⟨.string content, []⟩, []⟩).valueCode =
      (Sentence.computed .string (.string content) []).valueCode := by
    simp [Sentence.valueCode, Sentence.chainCode, Formula.valueCode, Chain.code]
  have hparse := Target.parseTarget_valueCode hspelled rfl
  rw [hcode] at hparse
  rw [toList_targetCode]
  exact hparse

end Values

/-- On any variables and any record types, a text between quotes translates to a string and
compiles, and its value is the text with the marks shown as blanks: the text itself, unless it has
a mark. -/
theorem translate_inQuotes (types : Registry) (t : VariableTable) (s : String)
    (h : Quotable s.toList) :
    let source := "'" ++ s ++ "'"
    ∃ code e, (translate t source).run types = .ok code ∧ code.kind = .primitive .string ∧
      Target.parseTarget code.text.toList = .ok e ∧
      (∀ name : QualifiedName, name.isWellFormed = true →
        Compile.target name code.text = .ok (.ofBody name (.expression e) none none) ∧
        (Compile.expression name source t).run types =
          .ok (.ofBody name (.expression e) (some source) none)) ∧
      ∀ vars, Evaluate.expr vars e = .ok (.string (String.ofList (s.toList.map readMark))) ∧
        (Evaluate.expr vars e = .ok (.string s) ↔
          spaceMark ∉ s.toList ∧ tabMark ∉ s.toList) := by
  intro source
  have hsource : source.toList = inQuotes s.toList := by simp [source, inQuotes]
  have hsentence := sentence_inQuotes types t h hsource
  have htarget := parseTarget_string (s.toList.map readMark)
  refine ⟨_, _, ?_, rfl, htarget, fun name hname => ⟨?_, ?_⟩, fun vars => ⟨rfl, ?_⟩⟩
  · rw [translate, Inquiry.run_bind, hsentence]
    rfl
  · rw [Compile.target, Compile.checkName, if_pos hname, Compile.targetUnit, htarget]
    rfl
  · rw [Compile.expression_of_sentence hname hsentence, Compile.targetUnit, htarget]
  · rw [← map_readMark_eq_self]
    constructor
    · intro hvalue
      have hsame := Value.string.inj (Except.ok.inj hvalue)
      exact String.ofList_injective (hsame.trans String.ofList_toList.symm)
    · intro hsame
      rw [hsame, String.ofList_toList]
      rfl

/-- Double quotes, backslashes, operation symbols and blanks are kept. -/
theorem translate_inQuotes_symbols :
    let s := " \"a\" \\ + b.c[1]\t"
    Quotable s.toList ∧ ∃ code e,
      (translate .empty "' \"a\" \\ + b.c[1]\t'").run (Registry.ofTypes []) = .ok code ∧
        Target.parseTarget code.text.toList = .ok e ∧
        Evaluate.expr .empty e = .ok (.string s) := by
  intro s
  have hs : Quotable s.toList := by decide
  obtain ⟨code, e, hcode, -, he, -, hvalue⟩ := translate_inQuotes (Registry.ofTypes []) .empty s hs
  exact ⟨hs, code, e, hcode, he, (hvalue .empty).2.mpr (by decide)⟩

/-- A text of one mark becomes a blank. -/
theorem inQuotes_loses_mark :
    Quotable "\uE000".toList ∧
      (translate .empty "'\uE000'").run (Registry.ofTypes []) =
        .ok ⟨"return str(\" \");", .primitive .string⟩ ∧
      ∃ e, Target.parseTarget "return str(\" \");".toList = .ok e ∧
        Evaluate.expr .empty e = .ok (.string " ") ∧ " " ≠ "\uE000" := by
  have hmark : Quotable "\uE000".toList := by decide
  refine ⟨hmark, by rfl, ⟨.primitive .string, .literal (.string " ")⟩, ?_, rfl, by decide⟩
  exact parseTarget_string [' ']

end Scriptorium.Expression

import Scriptorium.Proofs.Run.Interpretation
import Scriptorium.Proofs.Script.Matches

/-!
# Where expressions occur

The expressions of a script stand in its initial values, in its assignments and
on both sides of its comparisons. They are listed in the order in which the
script is read, each with the declarations in front of it. A declaration that is
not admitted, for its name, its type or a variable that bears the name already,
adds nothing to those behind it.
-/

namespace Scriptorium

open Interpretation (textsOfCall)

instance SemanticType.decidableKnown (types : Registry) (type : SemanticType) :
    Decidable (type.Known types) :=
  match type with
  | .primitive _ | .array => isTrue trivial
  | .record name =>
    match h : types name with
    | .ok (some t) => isTrue ⟨t, h⟩
    | .ok none => isFalse fun ⟨_, ht⟩ => nomatch h.symm.trans ht
    | .error _ => isFalse fun ⟨_, ht⟩ => nomatch h.symm.trans ht

/-- What a call declares. -/
structure Declaration where
  space : Namespace
  name : String
  type : SemanticType

namespace Call

/-- The declaration that a call makes. -/
def declaration? (c : Call) : Option Declaration :=
  match c.name, c.args with
  | "DeclareInputVar", [name, type] => some ⟨.input, name, .ofTypeName type⟩
  | "DeclareLocalVar", [name, type] => some ⟨.local, name, .ofTypeName type⟩
  | "DeclareLocalVar", [name, type, _] => some ⟨.local, name, .ofTypeName type⟩
  | _, _ => none

theorem declaration?_eq_none {c : Call}
    (hinput : c.name = "DeclareInputVar" → ∀ name type, c.args ≠ [name, type])
    (hlocal : c.name = "DeclareLocalVar" → ∀ name type, c.args ≠ [name, type])
    (hinit : c.name = "DeclareLocalVar" → ∀ name type text, c.args ≠ [name, type, text]) :
    c.declaration? = none := by
  unfold declaration?
  split
  · next hname hargs => exact absurd hargs (hinput hname _ _)
  · next hname hargs => exact absurd hargs (hlocal hname _ _)
  · next hname hargs => exact absurd hargs (hinit hname _ _ _)
  · rfl

/-- The texts that a call compares. -/
def comparedTexts (c : Call) : List String :=
  if c.name = Comparison.equal.callName ∨ c.name = Comparison.lessOrEqual.callName then
    match c.args with
    | [left, right] | [left, right, _] => [left, right]
    | _ => []
  else []

theorem comparedTexts_eq {c : Call} {comparison : Comparison} {left right : String}
    {description : Option String} (hname : c.name = comparison.callName)
    (hargs : c.args = left :: right :: description.toList) : c.comparedTexts = [left, right] := by
  unfold comparedTexts
  rw [if_pos (by cases comparison <;> simp [hname]), hargs]
  cases description <;> rfl

theorem comparedTexts_eq_nil {c : Call} (htwo : ∀ left right, c.args ≠ [left, right])
    (hthree : ∀ left right description, c.args ≠ [left, right, description]) :
    c.comparedTexts = [] := by
  unfold comparedTexts
  split
  · split
    · next hargs => exact absurd hargs (htwo _ _)
    · next hargs => exact absurd hargs (hthree _ _ _)
    · rfl
  · rfl

end Call

theorem Interpretation.textsOfCall_eq_nil {c : Call}
    (hlocal : c.name = "DeclareLocalVar" → ∀ name type text, c.args ≠ [name, type, text])
    (hset : c.name = "SetLocalVar" → ∀ target text, c.args ≠ [target, text]) :
    textsOfCall c = [] := by
  unfold textsOfCall
  split
  · next hname hargs => exact absurd hargs (hlocal hname _ _ _)
  · next hname hargs => exact absurd hargs (hset hname _ _)
  · rfl

/-- The table behind a declaration. -/
def VariableTable.extend (types : Registry) (t : VariableTable) (d : Declaration) :
    VariableTable :=
  if Text.isIdentifier d.name.toList = true ∧ d.type.Known types ∧ t.namespace? d.name = none then
    match d.space with
    | .input => t.addInput d.name ⟨d.type, .null⟩
    | .local => t.setLocal d.name ⟨d.type, .null⟩
  else t

/-- The table behind a call. -/
def Call.scopeBehind (types : Registry) (t : VariableTable) (c : Call) : VariableTable :=
  (c.declaration?.map (t.extend types)).getD t

/-- An expression at one place of a script, with the declarations in front of it. -/
structure Occurrence where
  text : String
  scope : VariableTable

namespace Occurrence

/-- What the text is translated to where it stands, if it translates. -/
def translated? (types : Registry) (o : Occurrence) : Option (String × Sentence) :=
  ((Expression.sentence o.scope o.text).run types).toOption.map (o.text, ·)

/-- The error of the text where it stands, if it does not translate. -/
def untranslated? (types : Registry) (o : Occurrence) : Option (String × TranslationError) :=
  (failureOf ((Expression.sentence o.scope o.text).run types)).map (o.text, ·)

/-- Of each text the first occurrence. -/
def firsts : List Occurrence → List Occurrence
  | [] => []
  | o :: later => o :: (firsts later).filter (·.text ≠ o.text)

/-- An occurrence behind others is the first of its text, or adds nothing. -/
theorem firsts_concat (os : List Occurrence) (o : Occurrence) :
    firsts (os ++ [o]) =
      if o.text ∈ os.map (·.text) then firsts os else firsts os ++ [o] := by
  induction os with
  | nil => rfl
  | cons p os ih =>
    rw [List.cons_append, firsts, ih, List.map_cons, firsts]
    by_cases hmem : o.text ∈ os.map (·.text)
    · rw [if_pos hmem, if_pos (List.mem_cons_of_mem _ hmem)]
    · rw [if_neg hmem, List.filter_append]
      by_cases hfirst : o.text = p.text
      · rw [if_pos (List.mem_cons.mpr (.inl hfirst)), List.filter_cons_of_neg (by simp [hfirst]),
          List.filter_nil, List.append_nil]
      · have hnew : o.text ∉ p.text :: os.map (·.text) :=
          List.not_mem_cons_of_ne_of_not_mem hfirst hmem
        rw [if_neg hnew, List.filter_cons_of_pos (by simp [hfirst]), List.filter_nil,
          List.cons_append]

/-- No two first occurrences are of one text. -/
theorem nodup_text_firsts (os : List Occurrence) : ((firsts os).map (·.text)).Nodup := by
  induction os with
  | nil => exact List.nodup_nil
  | cons o later ih =>
    rw [firsts, List.map_cons, List.nodup_cons]
    constructor
    · intro hmem
      obtain ⟨p, hp, hsame⟩ := List.mem_map.mp hmem
      exact of_decide_eq_true (List.mem_filter.mp hp).2 hsame
    · exact ih.sublist (List.filter_sublist.map _)

/-- The texts of the first occurrences are all texts that occur, each of them once. -/
theorem map_text_firsts (os : List Occurrence) :
    (firsts os).map (·.text) = (os.map (·.text)).eraseDups := by
  induction os using List.reverseRecOn with
  | nil => rfl
  | append_singleton os o ih =>
    rw [firsts_concat, List.map_append, List.eraseDups_append, ← ih, List.map_singleton,
      List.removeAll]
    by_cases hmem : o.text ∈ os.map (·.text)
    · rw [if_pos hmem, List.filter_cons_of_neg (by simpa using hmem), List.filter_nil]
      exact (List.append_nil _).symm
    · rw [if_neg hmem, List.filter_cons_of_pos (by simpa using hmem), List.filter_nil,
        List.map_append]
      rfl

end Occurrence

namespace Statement

mutual

/-- The table behind a statement. -/
def scopeBehind (types : Registry) (t : VariableTable) : Statement → VariableTable
  | .call c => c.scopeBehind types t
  | .branch _ thenBranch elseBranch =>
    scopeBehindAll types (scopeBehindAll types t thenBranch) elseBranch

/-- The table behind several statements. -/
def scopeBehindAll (types : Registry) (t : VariableTable) : List Statement → VariableTable
  | [] => t
  | s :: rest => scopeBehindAll types (s.scopeBehind types t) rest

end

mutual

/-- The expressions of a statement as they occur. -/
def occurrences (types : Registry) (t : VariableTable) : Statement → List Occurrence
  | .call c => (textsOfCall c).map (⟨·, t⟩)
  | .branch c thenBranch elseBranch =>
    c.comparedTexts.map (⟨·, t⟩) ++ (allOccurrences types t thenBranch ++
      allOccurrences types (scopeBehindAll types t thenBranch) elseBranch)

/-- The expressions of several statements as they occur. -/
def allOccurrences (types : Registry) (t : VariableTable) : List Statement → List Occurrence
  | [] => []
  | s :: rest => s.occurrences types t ++ allOccurrences types (s.scopeBehind types t) rest

end

mutual

/-- The texts of the expressions of a statement. -/
def texts : Statement → List String
  | .call c => textsOfCall c
  | .branch c thenBranch elseBranch =>
    c.comparedTexts ++ (allTexts thenBranch ++ allTexts elseBranch)

/-- The texts of the expressions of several statements. -/
def allTexts : List Statement → List String
  | [] => []
  | s :: rest => s.texts ++ allTexts rest

end

mutual

theorem map_text_occurrences (types : Registry) (t : VariableTable) :
    ∀ s : Statement, (s.occurrences types t).map (·.text) = s.texts
  | .call c => by simp [occurrences, texts, Function.comp_def]
  | .branch c thenBranch elseBranch => by
    simp [occurrences, texts, map_text_allOccurrences, Function.comp_def]

theorem map_text_allOccurrences (types : Registry) (t : VariableTable) :
    ∀ ss : List Statement, (allOccurrences types t ss).map (·.text) = allTexts ss
  | [] => rfl
  | s :: rest => by
    simp [allOccurrences, allTexts, map_text_occurrences, map_text_allOccurrences]

end

end Statement

end Scriptorium

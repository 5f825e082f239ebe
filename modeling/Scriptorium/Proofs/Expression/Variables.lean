import Scriptorium.Proofs.Expression.Language

/-!
# The variables of an expression

A token names a variable by the identifier at its front, unless it is the word
for null or for a truth value. What an expression is translated to depends on
the declarations of the variables that its tokens name, and on no others.
-/

namespace Scriptorium.Expression

/-- The variable that a token reads: the identifier at its front. -/
def readName? (token : List Char) : Option String :=
  let name := token.takeWhile Text.isIdentifierPart
  if token ∉ ["null".toList, "true".toList, "false".toList] ∧ Text.isIdentifier name = true then
    some (String.ofList name)
  else none

/-- The variables that the text of an expression reads. -/
def readNames (text : String) : List String := (tokenize text.toList).filterMap readName?

/-- An identifier at the front of a token, behind which no other character of an identifier stands,
is the variable that the token reads. -/
theorem readName?_append {name rest : List Char}
    (hword : name ++ rest ∉ ["null".toList, "true".toList, "false".toList])
    (hname : Text.isIdentifier name = true)
    (hrest : ∀ c ∈ rest.head?, Text.isIdentifierPart c = false) :
    readName? (name ++ rest) = some (String.ofList name) := by
  have hparts : ∀ c ∈ name, Text.isIdentifierPart c = true := by
    intro c hc
    by_contra hpart
    exact not_mem_identifier hname (by simpa using hpart) hc
  have hfront : (name ++ rest).takeWhile Text.isIdentifierPart = name := by
    rw [List.takeWhile_append_of_pos hparts]
    cases rest with
    | nil => exact List.append_nil name
    | cons c rest => rw [List.takeWhile_cons_of_neg (by simp [hrest c rfl]), List.append_nil]
  unfold readName?
  rw [hfront]
  exact if_pos ⟨hword, hname⟩

/-- Behind the first piece of a token its separator stands, or nothing. -/
theorem splitAt_front (sep : Char) (token : List Char) :
    ∃ rest, token = (Text.splitAt sep token).1 ++ rest ∧ ∀ c ∈ rest.head?, c = sep := by
  induction token with
  | nil => exact ⟨[], rfl, nofun⟩
  | cons c cs ih =>
    by_cases hc : c = sep
    · refine ⟨c :: cs, by simp [Text.splitAt, hc], ?_⟩
      rintro d hd
      exact (Option.some.inj hd).symm.trans hc
    · obtain ⟨rest, hrest, hend⟩ := ih
      refine ⟨rest, ?_, hend⟩
      simp only [Text.splitAt, hc, if_false, List.cons_append]
      rw [← hrest]

variable {t t' : VariableTable}

theorem fieldChain_eq (t : VariableTable) (token : List Char) :
    fieldChain t token =
      match if Text.isIdentifier (Text.splitAt '.' token).1 then
          t.typeOf? (String.ofList (Text.splitAt '.' token).1) else none with
      | none => return .ok none
      | some type => followFields ⟨(Text.splitAt '.' token).1, []⟩ type
          (Text.splitAt '.' token).2 := by
  unfold fieldChain VariableTable.typeOf?
  dsimp only
  split_ifs
  · cases t.get? (String.ofList (Text.splitAt '.' token).1) <;> rfl
  · rfl

theorem variableTerm?_eq (t : VariableTable) (name : List Char) :
    variableTerm? t name =
      if Text.isIdentifier name then
        (t.typeOf? (String.ofList name)).map (accessTerm ⟨name, []⟩)
      else none := by
  unfold variableTerm? VariableTable.typeOf?
  rw [Option.map_map]
  rfl

/-- A token stands for the same wherever the variable that it reads has the same type. -/
theorem classify_congr {token : List Char}
    (h : ∀ name ∈ readName? token, t.typeOf? name = t'.typeOf? name) :
    classify t token = classify t' token := by
  by_cases hword : token ∈ ["null".toList, "true".toList, "false".toList]
  · rcases List.mem_cons.mp hword with rfl | hword
    · rfl
    · rcases List.mem_cons.mp hword with rfl | hword
      · rfl
      · obtain rfl := List.mem_singleton.mp hword
        rfl
  have hsame {name rest : List Char} (htoken : token = name ++ rest)
      (hname : Text.isIdentifier name = true)
      (hrest : ∀ c ∈ rest.head?, Text.isIdentifierPart c = false) :
      t.typeOf? (String.ofList name) = t'.typeOf? (String.ofList name) := by
    subst htoken
    exact h _ (readName?_append hword hname hrest)
  have helement : element? t token = element? t' token := by
    refine Option.ext fun term => ?_
    rw [element?_eq_some, element?_eq_some]
    refine exists_congr fun name => exists_congr fun rest => and_congr_right fun hsplit =>
      and_congr_right fun _ => and_congr_right fun hname => ?_
    have hend : ∀ c ∈ ('[' :: rest).head?, Text.isIdentifierPart c = false := by
      rintro c hc
      obtain rfl : '[' = c := Option.some.inj hc
      rfl
    rw [hsame (Text.splitFirst?_eq_some hsplit) hname hend]
  have hchain : fieldChain t token = fieldChain t' token := by
    rw [fieldChain_eq, fieldChain_eq]
    by_cases hname : Text.isIdentifier (Text.splitAt '.' token).1 = true
    · obtain ⟨rest, hrest, hend⟩ := splitAt_front '.' token
      rw [hsame hrest hname fun c hc => hend c hc ▸ rfl]
    · rw [if_neg hname, if_neg hname]
  have hvariable : variableTerm? t token = variableTerm? t' token := by
    rw [variableTerm?_eq, variableTerm?_eq]
    split
    · next hname => rw [hsame (List.append_nil token).symm hname nofun]
    · rfl
  rw [classify_eq, classify_eq, helement, hchain, hvariable]

theorem advance_congr {previous : String} {state : State} {token : List Char}
    (h : ∀ name ∈ readName? token, t.typeOf? name = t'.typeOf? name) :
    advance t previous state token = advance t' previous state token := by
  unfold advance
  rw [classify_congr h]

theorem readTokens_congr {tokens : List (List Char)} {previous : String} {state : State}
    (h : ∀ name ∈ tokens.filterMap readName?, t.typeOf? name = t'.typeOf? name) :
    readTokens t previous state tokens = readTokens t' previous state tokens := by
  induction tokens generalizing previous state with
  | nil => rfl
  | cons token tokens ih =>
    have htoken : ∀ name ∈ readName? token, t.typeOf? name = t'.typeOf? name := fun name hname =>
      h name (List.mem_filterMap.mpr ⟨token, List.mem_cons_self, hname⟩)
    have htokens : ∀ name ∈ tokens.filterMap readName?, t.typeOf? name = t'.typeOf? name := by
      intro name hname
      obtain ⟨other, hother, hname⟩ := List.mem_filterMap.mp hname
      exact h name (List.mem_filterMap.mpr ⟨other, List.mem_cons_of_mem _ hother, hname⟩)
    unfold readTokens
    rw [advance_congr htoken]
    congr 1
    funext next
    cases next with
    | error e => rfl
    | ok state => exact ih htokens

/-- An expression is translated alike wherever the variables that it reads have the same types. -/
theorem sentence_congr {text : String}
    (h : ∀ name ∈ readNames text, t.typeOf? name = t'.typeOf? name) :
    sentence t text = sentence t' text :=
  readTokens_congr h

end Scriptorium.Expression

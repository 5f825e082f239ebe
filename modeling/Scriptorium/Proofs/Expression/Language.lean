import Scriptorium.Proofs.Expression.Scope
import Scriptorium.Proofs.Expression.Typing
import Scriptorium.Proofs.Name.Segments
import Scriptorium.Proofs.Variable.Sound

/-!
# The language of expressions

A token denotes null, a value of one primitive kind, or a reference. An
expression is a single null, a single reference, or values of one kind with
operation symbols of that kind between them. Every token denotes at most one of
these, and the translator takes it for what it denotes.
-/

namespace Scriptorium

/-- Every lookup is answered, if only with the answer that there is no such type. -/
def Registry.Answers (types : Registry) : Prop := ∀ name, ∃ found, types name = .ok found

/-- The names of all fields are identifiers. -/
def Registry.Identified (types : Registry) : Prop :=
  ∀ name t, types name = .ok (some t) → ∀ f ∈ t.fields, Text.isIdentifier f.name.toList = true

namespace Expression

/-- The spellings of the values of a kind. -/
inductive Literal : PrimitiveKind → List Char → Prop
  | integer {sign digits : List Char} (hsign : sign = [] ∨ sign = ['-'])
    (hdigits : Text.isDigits digits = true) : Literal .integer (sign ++ digits)
  | decimal {sign whole fraction : List Char} (hsign : sign = [] ∨ sign = ['-'])
    (hwhole : ∀ c ∈ whole, c.isDigit = true) (hfraction : Text.isDigits fraction = true) :
    Literal .decimal (sign ++ whole ++ '.' :: fraction)
  | true : Literal .boolean "true".toList
  | false : Literal .boolean "false".toList
  | string {content : List Char} (h : '\'' ∉ content) :
    Literal .string ('\'' :: content ++ ['\''])

variable (types : Registry) (table : VariableTable)

/-- The token names a slot of this type: a declared variable, or the field to which a chain of
fields leads from one. -/
inductive Names : List Char → SemanticType → Prop
  | declared {name : List Char} {v : Variable} (hname : Text.isIdentifier name = true)
    (hword : name ∉ ["null".toList, "true".toList, "false".toList])
    (hget : table.get? (String.ofList name) = some v) : Names name v.type
  | chain {head field : List Char} {fields : List (List Char)} {v : Variable} {type : SemanticType}
    (hhead : Text.isIdentifier head = true) (hget : table.get? (String.ofList head) = some v)
    (hslot : slotType? types v.type ((field :: fields).map String.ofList) = some type) :
    Names (Text.joinWith ['.'] (head, field :: fields)) type

/-- The token denotes null, a value of a kind, or a reference. -/
inductive Denotes : ResultKind → List Char → Prop
  | null : Denotes .null "null".toList
  | literal {kind : PrimitiveKind} {token : List Char} (h : Literal kind token) :
    Denotes (.primitive kind) token
  | value {kind : PrimitiveKind} {token : List Char} (h : Names types table token (.primitive kind)) :
    Denotes (.primitive kind) token
  | array {token : List Char} (h : Names types table token .array) : Denotes .reference token
  | record {token : List Char} {name : QualifiedName} (h : Names types table token (.record name)) :
    Denotes .reference token
  | element {name : List Char} {v : Variable} {k : Nat} (hname : Text.isIdentifier name = true)
    (hget : table.get? (String.ofList name) = some v) (harray : v.type = .array) (hpos : 0 < k)
    (hbound : k < WrittenStep.indexBound) :
    Denotes .reference (name ++ '[' :: (Text.natDigits k ++ [']']))

/-- Values of one kind with operation symbols of that kind between them. -/
inductive Values (kind : PrimitiveKind) : List (List Char) → Prop
  | last {token : List Char} (h : Denotes types table (.primitive kind) token) : Values kind [token]
  | cons {token : List Char} {symbol : String} {tokens : List (List Char)}
    (h : Denotes types table (.primitive kind) token) (hsymbol : symbol ∈ kind.operands)
    (hrest : Values kind tokens) : Values kind (token :: symbol.toList :: tokens)

/-- The tokens are an expression of this kind. -/
inductive Accepts : ResultKind → List (List Char) → Prop
  | null : Accepts .null ["null".toList]
  | reference {token : List Char} (h : Denotes types table .reference token) :
    Accepts .reference [token]
  | values {kind : PrimitiveKind} {tokens : List (List Char)} (h : Values types table kind tokens) :
    Accepts (.primitive kind) tokens

variable {types table}

theorem kind_accessTerm (access : WrittenAccess) {token : List Char} {type : SemanticType}
    (h : Names types table token type) : Denotes types table (accessTerm access type).kind token := by
  cases type with
  | primitive kind => exact .value h
  | array => exact .array h
  | record name => exact .record h

section Reading

/-! ### What the translator takes a token for, the token denotes -/

theorem sign_unsigned (token : List Char) :
    ∃ sign, (sign = [] ∨ sign = ['-']) ∧ token = sign ++ Text.unsigned token := by
  unfold Text.unsigned
  split
  · exact ⟨['-'], .inr rfl, rfl⟩
  · exact ⟨[], .inl rfl, rfl⟩

theorem literal_of_isInteger {token : List Char} (h : Text.isInteger token = true) :
    Literal .integer token := by
  obtain ⟨sign, hsign, heq⟩ := sign_unsigned token
  rw [heq]
  exact .integer hsign h

theorem literal_of_isDecimal {token : List Char} (h : Text.isDecimal token = true) :
    Literal .decimal token := by
  obtain ⟨sign, hsign, heq⟩ := sign_unsigned token
  obtain ⟨whole, fraction, hunsigned, hwhole, hfraction⟩ := Text.isDecimal_iff h
  rw [heq, hunsigned, ← List.append_assoc]
  exact .decimal hsign hwhole hfraction

theorem denotes_element {token : List Char} {term : Term} (h : element? table token = some term) :
    Denotes types table term.kind token := by
  obtain ⟨name, rest, hsplit, hclose, hname, hindex, harray, hbound, rfl⟩ := element?_eq_some.mp h
  obtain ⟨index, rfl⟩ := List.getLast?_eq_some_iff.mp hclose
  rw [List.dropLast_concat] at hindex hbound
  obtain ⟨k, hpos, rfl⟩ := Text.isPositiveInteger_iff.mp hindex
  rw [Text.digitsValue_natDigits] at hbound
  obtain ⟨v, hget, hv⟩ := Option.map_eq_some_iff.mp harray
  rw [Text.splitFirst?_eq_some hsplit]
  exact .element hname hget hv hpos hbound

theorem denotes_chain {token : List Char} {term : Term} (hpoint : token.contains '.' = true)
    (h : (fieldChain table token).run types = .ok (some term)) :
    Denotes types table term.kind token := by
  obtain ⟨hhead, v, hget, hfollow⟩ := fieldChain_eq_some.mp h
  have htoken := Text.joinWith_splitAt '.' token
  have hnone := (Text.not_mem_splitAt '.' token).1
  rcases hsplit : Text.splitAt '.' token with ⟨head, fields⟩
  rw [hsplit] at hhead hget hfollow htoken hnone
  obtain ⟨type, hslot, rfl⟩ := followFields_slot [] hfollow
  cases fields with
  | nil =>
    obtain rfl : head = token := htoken
    exact absurd (by simpa using hpoint) hnone
  | cons field fields =>
    rw [← htoken]
    exact kind_accessTerm _ (.chain hhead hget hslot)

theorem denotes_variable {token : List Char} {term : Term}
    (hword : token ∉ ["null".toList, "true".toList, "false".toList])
    (h : variableTerm? table token = some term) : Denotes types table term.kind token := by
  obtain ⟨hname, v, hget, rfl⟩ := variableTerm?_eq_some.mp h
  exact kind_accessTerm _ (.declared hname hword hget)

theorem denotes_literal {token : List Char} {term : Term} (h : LiteralTerm token term) :
    Denotes types table term.kind token := by
  cases h with
  | null => exact .null
  | integer h => exact .literal (literal_of_isInteger h)
  | decimal _ h => exact .literal (literal_of_isDecimal h)
  | true => exact .literal .true
  | false => exact .literal .false
  | string hquote => exact .literal (.string hquote)

theorem denotes_of_classify {token : List Char} {term : Term}
    (h : (classify table token).run types = .ok (some term)) :
    Denotes types table term.kind token := by
  rcases classify_eq_some.mp h with hliteral | ⟨hnone, hslot⟩
  · exact denotes_literal hliteral
  · cases hslot with
    | element _ h => exact denotes_element h
    | chain _ hpoint h => exact denotes_chain hpoint h
    | declared _ _ h => exact denotes_variable (not_word_of_literalTerm? hnone) h

end Reading

section Taking

/-! ### The translator takes a token for what it denotes -/

theorem not_mem_identifier {name : List Char} {c : Char} (h : Text.isIdentifier name = true)
    (hc : Text.isIdentifierPart c = false) : c ∉ name := by
  intro hmem
  rw [Text.isIdentifierPart_of_mem h hmem] at hc
  cases hc

/-- A text that begins like an identifier is no literal. -/
theorem classify_word {token : List Char} {c : Char} {cs : List Char} (htoken : token = c :: cs)
    (hc : Text.isIdentifierStart c = true)
    (hword : token ∉ ["null".toList, "true".toList, "false".toList]) :
    classify table token =
      if token.getLast? = some ']' then return .ok (element? table token)
      else if token.contains '.' then fieldChain table token
      else return .ok (variableTerm? table token) := by
  have hne (d : Char) (hd : Text.isIdentifierStart d = false) : c ≠ d := by
    rintro rfl
    rw [hc] at hd
    cases hd
  have hdigit : c.isDigit = false := by
    by_contra hdigit
    have hstart : (!Text.isIdentifierStart c) = true :=
      Text.of_isDigit (p := fun d => !Text.isIdentifierStart d) (by decide) (by simpa using hdigit)
    exact hne c (by simpa using hstart) rfl
  -- The first character rules out the branches for numerals and for texts in quotes.
  obtain ⟨hinteger, hdecimal⟩ := not_numeral hdigit (hne '-' (by decide))
    (hne '.' (by decide)) cs
  have hquote : stringLiteral? token = none := by
    subst htoken
    unfold stringLiteral?
    split
    · next heq => exact absurd (List.cons.inj heq).1 (hne '\'' (by decide))
    · rfl
  rw [← htoken] at hinteger hdecimal
  simp only [List.mem_cons, List.not_mem_nil, or_false, not_or] at hword
  obtain ⟨hnull, htrue, hfalse⟩ := hword
  have hliteral : literalTerm? token = none := by
    simp only [literalTerm?, hnull, hinteger, hdecimal, htrue, hfalse, hquote, if_false,
      Bool.false_eq_true, Option.map_none]
  rw [classify_eq, hliteral]

/-- A text between quotes is taken for a string. -/
theorem classify_string (table : VariableTable) {content : List Char} (hquote : '\'' ∉ content) :
    classify table ('\'' :: content ++ ['\'']) = pure (.ok (some (.operand (.string content)))) := by
  rw [classify_eq, literalTerm?_of_literalTerm (.string hquote)]

/-- A literal is taken for what it spells. -/
theorem classify_literal (table : VariableTable) {kind : PrimitiveKind} {token : List Char}
    (h : Literal kind token) :
    ∃ o : Operand, classify table token = pure (.ok (some (.operand o))) ∧ o.kind = kind := by
  have hspelled : ∃ o : Operand, LiteralTerm token (.operand o) ∧ o.kind = kind := by
    cases h with
    | integer hsign hdigits => exact ⟨_, .integer (Text.isInteger_append hsign hdigits), rfl⟩
    | decimal hsign hwhole hfraction =>
      obtain ⟨hinteger, hdecimal⟩ := Text.isDecimal_append hsign hwhole hfraction
      exact ⟨_, .decimal hinteger hdecimal, rfl⟩
    | true => exact ⟨_, .true, rfl⟩
    | false => exact ⟨_, .false, rfl⟩
    | string hquote => exact ⟨_, .string hquote, rfl⟩
  obtain ⟨o, hliteral, hkind⟩ := hspelled
  exact ⟨o, by rw [classify_eq, literalTerm?_of_literalTerm hliteral], hkind⟩

theorem identifiers_of_slot (hidentified : types.Identified) {type end_ : SemanticType}
    {fields : List String} (h : slotType? types type fields = some end_) :
    ∀ f ∈ fields, Text.isIdentifier f.toList = true := by
  induction fields generalizing type with
  | nil => exact nofun
  | cons field fields ih =>
    obtain ⟨name, t, d, rfl, ht, hd, hrest⟩ := slotType?_cons.mp h
    intro f hf
    rcases List.mem_cons.mp hf with rfl | hf
    · have hidentifier := hidentified name t ht d (List.mem_of_find?_eq_some hd)
      rwa [RecordType.name_of_field? hd] at hidentifier
    · exact ih hrest f hf

theorem followFields_of_slot {access : WrittenAccess} {type end_ : SemanticType}
    {fields : List (List Char)} (h : slotType? types type (fields.map String.ofList) = some end_) :
    ∃ access', (followFields access type fields).run types =
      .ok (some (accessTerm access' end_)) := by
  induction fields generalizing access type with
  | nil =>
    obtain rfl : type = end_ := Option.some.inj h
    exact ⟨access, rfl⟩
  | cons field fields ih =>
    obtain ⟨name, t, d, rfl, ht, hd, hrest⟩ := slotType?_cons.mp h
    simp only [followFields, Inquiry.run_bind, Inquiry.run_lookup, ht, hd]
    exact ih hrest

theorem classify_chain {head field : List Char} {fields : List (List Char)} {v : Variable}
    {type : SemanticType}
    (hidentifiers : ∀ w ∈ head :: field :: fields, Text.isIdentifier w = true)
    (hget : table.get? (String.ofList head) = some v)
    (hslot : slotType? types v.type ((field :: fields).map String.ofList) = some type) :
    ∃ access, (classify table (Text.joinWith ['.'] (head, field :: fields))).run types =
      .ok (some (accessTerm access type)) := by
  have hhead : Text.isIdentifier head = true := hidentifiers head List.mem_cons_self
  -- No part has a point or a bracket in it, so the points in the token are those between the parts.
  have hnone (c : Char) (hc : Text.isIdentifierPart c = false) :
      ∀ w ∈ head :: field :: fields, c ∉ w := fun w hw =>
    not_mem_identifier (hidentifiers w hw) hc
  have hsplit : Text.splitAt '.' (Text.joinWith ['.'] (head, field :: fields)) =
      (head, field :: fields) := Text.splitAt_joinWith (hnone '.' (by decide))
  have hbracket : ']' ∉ Text.joinWith ['.'] (head, field :: fields) :=
    Text.not_mem_joinWith (by decide) (hnone ']' (by decide))
  have hpoint : '.' ∈ Text.joinWith ['.'] (head, field :: fields) := by
    rw [Text.joinWith_cons]
    simp
  obtain ⟨c, cs, hcs, hc, -⟩ := Text.isIdentifier_spelled hhead
  have hstart : Text.joinWith ['.'] (head, field :: fields) =
      c :: (cs ++ '.' :: Text.joinWith ['.'] (field, fields)) := by
    rw [Text.joinWith_cons, hcs, List.cons_append]
  generalize Text.joinWith ['.'] (head, field :: fields) = token at *
  have hclose : token.getLast? ≠ some ']' := fun hlast => hbracket (List.mem_of_getLast? hlast)
  have hword : token ∉ ["null".toList, "true".toList, "false".toList] := by
    intro hmem
    have hall : ∀ w ∈ ["null".toList, "true".toList, "false".toList], '.' ∉ w := by decide
    exact hall token hmem hpoint
  rw [classify_word hstart hc hword, if_neg hclose, if_pos (by simpa using hpoint)]
  simp only [fieldChain, hsplit, hhead, if_true, hget]
  exact followFields_of_slot hslot

/-- What names a slot is taken for it. -/
theorem classify_names (hidentified : types.Identified) {token : List Char} {type : SemanticType}
    (h : Names types table token type) :
    ∃ access, (classify table token).run types = .ok (some (accessTerm access type)) := by
  cases h with
  | @declared _ v hname hword hget =>
    obtain ⟨c, cs, htoken, hc, -⟩ := Text.isIdentifier_spelled hname
    have hclose : token.getLast? ≠ some ']' := fun hlast =>
      not_mem_identifier hname (by decide) (List.mem_of_getLast? hlast)
    have hpoint : '.' ∉ token := not_mem_identifier hname (by decide)
    refine ⟨⟨token, []⟩, ?_⟩
    rw [classify_word htoken hc hword, if_neg hclose, if_neg (by simpa using hpoint)]
    simp [variableTerm?, hname, hget]
  | @chain head field fields v type hhead hget hslot =>
    have hfields : ∀ w ∈ field :: fields, Text.isIdentifier w = true := by
      intro w hw
      have hidentifier := identifiers_of_slot hidentified hslot _ (List.mem_map_of_mem hw)
      rwa [String.toList_ofList] at hidentifier
    exact classify_chain (List.forall_mem_cons.mpr ⟨hhead, hfields⟩) hget hslot

/-- An element is taken for a reference. -/
theorem classify_element {name : List Char} {v : Variable} {k : Nat}
    (hname : Text.isIdentifier name = true) (hget : table.get? (String.ofList name) = some v)
    (harray : v.type = .array) (hpos : 0 < k) (hbound : k < WrittenStep.indexBound) :
    ∃ access, (classify table (name ++ '[' :: (Text.natDigits k ++ [']']))).run types =
      .ok (some (.reference access)) := by
  obtain ⟨c, cs, hcs, hc, -⟩ := Text.isIdentifier_spelled hname
  have hsplit : Text.splitFirst? ['['] (name ++ '[' :: (Text.natDigits k ++ [']'])) =
      some (name, Text.natDigits k ++ [']']) :=
    @Text.splitFirst?_append '[' [] name (not_mem_identifier hname (by decide)) _
  have hclose : (name ++ '[' :: (Text.natDigits k ++ [']'])).getLast? = some ']' :=
    List.getLast?_eq_some_iff.mpr ⟨name ++ '[' :: Text.natDigits k, by simp⟩
  have hword : name ++ '[' :: (Text.natDigits k ++ [']']) ∉
      ["null".toList, "true".toList, "false".toList] := by
    intro hmem
    have hall : ∀ w ∈ ["null".toList, "true".toList, "false".toList], w.getLast? ≠ some ']' := by
      decide
    exact hall _ hmem hclose
  have helement := element?_eq_some (t := table).mpr ⟨name, _, hsplit,
    List.getLast?_concat, hname, by
      rw [List.dropLast_concat]
      exact Text.isPositiveInteger_iff.mpr ⟨k, hpos, rfl⟩, by simp [VariableTable.typeOf?, hget, harray],
    by rwa [List.dropLast_concat, Text.digitsValue_natDigits], rfl⟩
  rw [classify_word (by rw [hcs]; rfl) hc hword, if_pos hclose, helement]
  exact ⟨_, rfl⟩

end Taking

section Language

theorem followFields_answers (hanswers : types.Answers) (access : WrittenAccess)
    (type : SemanticType) (fields : List (List Char)) :
    ∃ found, (followFields access type fields).run types = .ok found := by
  induction fields generalizing access type with
  | nil => exact ⟨_, rfl⟩
  | cons field fields ih =>
    cases type with
    | record name =>
      obtain ⟨found, hfound⟩ := hanswers name
      simp only [followFields, Inquiry.run_bind, Inquiry.run_lookup, hfound]
      cases found with
      | none => exact ⟨_, rfl⟩
      | some t =>
        dsimp only
        split
        · exact ⟨_, rfl⟩
        · exact ih _ _
    | _ => exact ⟨_, rfl⟩

/-- Tokens can be told apart as long as record types can be looked up. -/
theorem classify_answers (hanswers : types.Answers) (table : VariableTable) (token : List Char) :
    ∃ found, (classify table token).run types = .ok found := by
  have hchain : ∃ found, (fieldChain table token).run types = .ok found := by
    unfold fieldChain
    dsimp only
    split
    · exact ⟨_, rfl⟩
    · exact followFields_answers hanswers _ _ _
  rw [classify_eq]
  split; · exact ⟨_, rfl⟩
  split; · exact ⟨_, rfl⟩
  split
  · exact hchain
  · exact ⟨_, rfl⟩

/-- A token is taken for what it denotes, and for nothing if it denotes nothing. -/
theorem classify_iff (hidentified : types.Identified) {token : List Char} {kind : ResultKind} :
    (∃ term, (classify table token).run types = .ok (some term) ∧ term.kind = kind) ↔
      Denotes types table kind token := by
  constructor
  · rintro ⟨term, hterm, rfl⟩
    exact denotes_of_classify hterm
  · intro h
    cases h with
    | null => exact ⟨.null, rfl, rfl⟩
    | literal h =>
      obtain ⟨o, ho, hkind⟩ := classify_literal table h
      exact ⟨.operand o, by rw [ho]; rfl, congrArg ResultKind.primitive hkind⟩
    | value h | array h | record h =>
      obtain ⟨access, haccess⟩ := classify_names hidentified h
      exact ⟨_, haccess, rfl⟩
    | element hname hget harray hpos hbound =>
      obtain ⟨access, haccess⟩ := classify_element hname hget harray hpos hbound
      exact ⟨_, haccess, rfl⟩

theorem Denotes.unique (hidentified : types.Identified) {token : List Char} {kind kind' : ResultKind}
    (h : Denotes types table kind token) (h' : Denotes types table kind' token) : kind = kind' := by
  obtain ⟨term, hterm, rfl⟩ := (classify_iff hidentified).mpr h
  obtain ⟨term', hterm', rfl⟩ := (classify_iff hidentified).mpr h'
  rw [hterm] at hterm'
  cases hterm'
  rfl

end Language

end Expression

end Scriptorium

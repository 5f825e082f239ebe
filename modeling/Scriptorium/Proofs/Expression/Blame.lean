import Scriptorium.Proofs.Expression.Language

/-!
# The token at fault

The translator accepts the expressions of the language and nothing else. At
every moment the tokens read so far begin an expression. The token at which it
stops is the first one with which they begin none; where it comes to the end
without an expression, an operation symbol stands there, and that is blamed.
-/

namespace Scriptorium.Expression

variable (types : Registry) (table : VariableTable)

/-- The tokens begin an expression. -/
def Viable (tokens : List (List Char)) : Prop :=
  ∃ kind rest, Accepts types table kind (tokens ++ rest)

/-- The error is about the first token with which the tokens begin no expression, or about the
operation symbol at the end when there is no such token. -/
inductive Blames (e : TranslationError) : List (List Char) → Prop
  | unexpected {before after : List (List Char)} {token : List Char}
    (htoken : e.token = String.ofList token) (hbefore : Viable types table before)
    (hnone : ¬ Viable types table (before ++ [token])) : Blames e (before ++ token :: after)
  | unfinished {kind : PrimitiveKind} {before : List (List Char)} {symbol : String}
    (htoken : e.token = symbol) (hvalues : Values types table kind before)
    (hsymbol : symbol ∈ kind.operands) (hviable : Viable types table (before ++ [symbol.toList])) :
    Blames e (before ++ [symbol.toList])

/-- The tokens are among those after which the translator is in this state. -/
inductive Reads : State → List (List Char) → Prop
  | start : Reads .start []
  | value {kind : PrimitiveKind} {first : Operand} {rest : List (String × Operand)}
    {tokens : List (List Char)} (h : Values types table kind tokens) :
    Reads (.value kind first rest) tokens
  | operation {kind : PrimitiveKind} {first : Operand} {rest : List (String × Operand)}
    {symbol : String} {tokens : List (List Char)} (h : Values types table kind tokens)
    (hsymbol : symbol ∈ kind.operands) :
    Reads (.operation kind first rest symbol) (tokens ++ [symbol.toList])
  | closed {s : Sentence} {token : List Char} (h : Denotes types table s.kind token)
    (hkind : ∀ kind, s.kind ≠ .primitive kind) : Reads (.closed s) [token]

variable {types table}

theorem exists_literal (kind : PrimitiveKind) : ∃ token, Literal kind token := by
  cases kind with
  | integer => exact ⟨_, @Literal.integer [] ['0'] (.inl rfl) (by decide)⟩
  | decimal =>
    exact ⟨_, @Literal.decimal [] [] ['0'] (.inl rfl) (List.forall_mem_nil _) (by decide)⟩
  | boolean => exact ⟨_, .true⟩
  | string => exact ⟨_, .string (List.not_mem_nil)⟩

namespace Values

variable {kind : PrimitiveKind} {tokens : List (List Char)}

theorem append {symbol : String} {token : List Char} (h : Values types table kind tokens)
    (hsymbol : symbol ∈ kind.operands) (hnext : Denotes types table (.primitive kind) token) :
    Values types table kind (tokens ++ [symbol.toList] ++ [token]) := by
  induction h with
  | last h => exact .cons h hsymbol (.last hnext)
  | cons h hs _ ih => exact .cons h hs ih

theorem rest {token next : List Char} (h : Values types table kind (token :: next :: tokens)) :
    (∃ symbol ∈ kind.operands, next = symbol.toList) ∧ Values types table kind tokens := by
  cases h with
  | cons _ hsymbol hrest => exact ⟨⟨_, hsymbol, rfl⟩, hrest⟩

end Values

namespace Accepts

variable {kind kind' : ResultKind} {token : List Char} {tokens : List (List Char)}

theorem of_denotes (h : Denotes types table kind token) : Accepts types table kind [token] := by
  cases kind with
  | null =>
    cases h
    exact .null
  | reference => exact .reference h
  | primitive kind => exact .values (.last h)

theorem denotes (h : Accepts types table kind (token :: tokens)) :
    Denotes types table kind token := by
  cases h with
  | null => exact .null
  | reference h => exact h
  | values h => cases h <;> assumption

/-- Tokens are an expression of one kind at most. -/
theorem unique (hidentified : types.Identified) (h : Accepts types table kind tokens)
    (h' : Accepts types table kind' tokens) : kind = kind' := by
  cases tokens with
  | nil =>
    cases h with
    | values h => cases h
  | cons token tokens => exact h.denotes.unique hidentified h'.denotes

theorem singleton (h : Accepts types table kind (token :: tokens))
    (hkind : ∀ k, kind ≠ .primitive k) : tokens = [] := by
  cases h with
  | null | reference => rfl
  | @values k => exact absurd rfl (hkind k)

/-- Behind values an operation symbol of their kind stands in an expression, and a value behind
that. -/
theorem next (hidentified : types.Identified) {k : PrimitiveKind} {before : List (List Char)}
    (h : Values types table k before) (hacc : Accepts types table kind (before ++ token :: tokens)) :
    (∃ symbol ∈ k.operands, token = symbol.toList) ∧
      ∃ value rest, tokens = value :: rest ∧ Denotes types table (.primitive k) value := by
  induction h with
  | last hfirst =>
    obtain rfl := hfirst.unique hidentified hacc.denotes
    cases hacc with
    | values hvalues =>
      obtain ⟨hsymbol, hrest⟩ := hvalues.rest
      cases tokens with
      | nil => cases hrest
      | cons value rest => exact ⟨hsymbol, value, rest, rfl, (Accepts.values hrest).denotes⟩
  | cons hfirst _ _ ih =>
    obtain rfl := hfirst.unique hidentified hacc.denotes
    cases hacc with
    | values hvalues => exact ih (.values hvalues.rest.2)

end Accepts

/-- What has been read begins an expression. -/
theorem Reads.viable {state : State} {tokens : List (List Char)}
    (h : Reads types table state tokens) : Viable types table tokens := by
  cases h with
  | start => exact ⟨.null, _, .null⟩
  | value h => exact ⟨_, [], by simpa using .values h⟩
  | @operation kind _ _ _ _ h hsymbol =>
    obtain ⟨token, htoken⟩ := exists_literal kind
    exact ⟨_, [token], .values (h.append hsymbol (.literal htoken))⟩
  | closed h => exact ⟨_, [], .of_denotes h⟩

section Advancing

variable {state : State} {before : List (List Char)}

/-- The translator goes on to a state that suits the tokens, or the error is about the next token
and with it the tokens begin no expression. -/
def Judges (types : Registry) (table : VariableTable) (before : List (List Char))
    (token : List Char) : Except TranslationError State → Prop
  | .ok next => Reads types table next (before ++ [token])
  | .error e => e.token = String.ofList token ∧ ¬ Viable types table (before ++ [token])

theorem judges_start (hanswers : types.Answers) (hidentified : types.Identified)
    (previous : String) (token : List Char) :
    Judges types table [] token ((advance table previous .start token).run types) := by
  obtain ⟨found, hfound⟩ := classify_answers hanswers table token
  simp only [Expression.advance, Inquiry.run_bind, hfound]
  cases found with
  | none =>
    refine ⟨rfl, ?_⟩
    rintro ⟨kind, rest, hacc⟩
    obtain ⟨term, hterm, -⟩ := (classify_iff hidentified).mpr hacc.denotes
    rw [hfound] at hterm
    cases hterm
  | some term =>
    have hdenotes := denotes_of_classify hfound
    cases term with
    | operand o => exact Reads.value (.last hdenotes)
    | reference access | null => exact Reads.closed hdenotes (fun _ hkind => by cases hkind)

theorem judges_value (hidentified : types.Identified) {kind : PrimitiveKind} {first : Operand}
    {rest : List (String × Operand)} (h : Values types table kind before) (previous : String)
    (token : List Char) :
    Judges types table before token
      ((advance table previous (.value kind first rest) token).run types) := by
  simp only [Expression.advance]
  split
  · next hsymbol =>
    have hnext :=
      @Reads.operation types table kind first rest _ _ h (List.contains_iff_mem.mp hsymbol)
    rwa [String.toList_ofList] at hnext
  · next hsymbol =>
    refine ⟨rfl, ?_⟩
    rintro ⟨kind', rest', hacc⟩
    rw [List.append_assoc] at hacc
    obtain ⟨⟨symbol, hmem, rfl⟩, -⟩ := Accepts.next hidentified h hacc
    rw [String.ofList_toList] at hsymbol
    exact hsymbol (List.contains_iff_mem.mpr hmem)

/-- Behind an operation symbol every expression goes on with a value of the same kind. -/
theorem Values.denotes_next (hidentified : types.Identified) {kind : PrimitiveKind}
    {symbol token : List Char} (h : Values types table kind before)
    (hviable : Viable types table (before ++ [symbol] ++ [token])) :
    Denotes types table (.primitive kind) token := by
  obtain ⟨kind', rest, hacc⟩ := hviable
  simp only [List.append_assoc, List.cons_append, List.nil_append] at hacc
  obtain ⟨-, value, _, heq, hvalue⟩ := Accepts.next hidentified h hacc
  obtain ⟨rfl, -⟩ := List.cons.inj heq
  exact hvalue

theorem continue?_eq_some {kind : PrimitiveKind} {first : Operand}
    {rest : List (String × Operand)} {symbol : String} {term : Term} {next : State} :
    State.continue? kind first rest symbol term = some next ↔
      ∃ o, term = .operand o ∧ o.kind = kind ∧ next = .value kind first (rest ++ [(symbol, o)]) := by
  cases term with
  | operand o =>
    by_cases hkind : o.kind = kind
    · simp [State.continue?, hkind, eq_comm]
    · simp [State.continue?, hkind]
  | reference access => simp [State.continue?]
  | null => simp [State.continue?]

theorem judges_operation (hanswers : types.Answers) (hidentified : types.Identified)
    {kind : PrimitiveKind} {first : Operand} {rest : List (String × Operand)} {symbol : String}
    (h : Values types table kind before) (hsymbol : symbol ∈ kind.operands) (previous : String)
    (token : List Char) :
    Judges types table (before ++ [symbol.toList]) token
      ((advance table previous (.operation kind first rest symbol) token).run types) := by
  obtain ⟨found, hfound⟩ := classify_answers hanswers table token
  simp only [Expression.advance, Inquiry.run_bind, hfound]
  cases hnext : found.bind (State.continue? kind first rest symbol) with
  | none =>
    refine ⟨rfl, fun hviable => ?_⟩
    -- A token that some expression goes on with denotes a value of the kind and is taken for it.
    have hvalue := h.denotes_next hidentified hviable
    obtain ⟨term, hterm, hkind⟩ := (classify_iff hidentified).mpr hvalue
    obtain rfl : found = some term := Except.ok.inj (hfound.symm.trans hterm)
    cases term with
    | operand o =>
      rw [Option.bind_some,
        continue?_eq_some.mpr ⟨o, rfl, ResultKind.primitive.inj hkind, rfl⟩] at hnext
      cases hnext
    | reference access | null => cases hkind
  | some next =>
    obtain ⟨term, rfl, hcontinue⟩ := Option.bind_eq_some_iff.mp hnext
    obtain ⟨o, rfl, rfl, rfl⟩ := continue?_eq_some.mp hcontinue
    exact Reads.value (h.append hsymbol (denotes_of_classify hfound))

/-- The next token leads on, or with it the tokens begin no expression. -/
theorem Reads.judges (hanswers : types.Answers) (hidentified : types.Identified)
    (h : Reads types table state before) (previous : String) (token : List Char) :
    Judges types table before token ((advance table previous state token).run types) := by
  cases h with
  | start => exact judges_start hanswers hidentified previous token
  | value h => exact judges_value hidentified h previous token
  | operation h hsymbol => exact judges_operation hanswers hidentified h hsymbol previous token
  | closed h hkind =>
    refine ⟨rfl, ?_⟩
    rintro ⟨kind', rest', hacc⟩
    obtain rfl := h.unique hidentified hacc.denotes
    cases hacc.singleton hkind

/-- All tokens are an expression, or the error blames the one at fault. -/
theorem Reads.readTokens (hanswers : types.Answers) (hidentified : types.Identified)
    (h : Reads types table state before) (previous : String) {tokens : List (List Char)}
    (hne : before ++ tokens ≠ []) :
    (∃ s, (readTokens table previous state tokens).run types = .ok s ∧
      Accepts types table s.kind (before ++ tokens)) ∨
    ∃ e, (readTokens table previous state tokens).run types = .error e ∧
      Blames types table e (before ++ tokens) := by
  induction tokens generalizing state before previous with
  | nil =>
    rw [List.append_nil] at hne ⊢
    have hviable := h.viable
    cases h with
    | start => exact absurd rfl hne
    | value h => exact .inl ⟨_, rfl, .values h⟩
    | operation h hsymbol =>
      exact .inr ⟨_, rfl, .unfinished rfl h hsymbol hviable⟩
    | closed h => exact .inl ⟨_, rfl, .of_denotes h⟩
  | cons token tokens ih =>
    have hjudges := h.judges hanswers hidentified previous token
    simp only [Expression.readTokens, Inquiry.run_bind]
    cases hnext : (advance table previous state token).run types with
    | ok next =>
      rw [hnext] at hjudges
      have hrest := ih hjudges (String.ofList token) (by simp)
      rwa [List.append_assoc, List.singleton_append] at hrest
    | error e =>
      rw [hnext] at hjudges
      obtain ⟨htoken, hnone⟩ := hjudges
      exact .inr ⟨e, rfl, .unexpected htoken h.viable hnone⟩

end Advancing

theorem tokenize_ne_nil (text : List Char) : tokenize text ≠ [] := by
  unfold tokenize
  dsimp only
  split
  · exact List.cons_ne_nil _ _
  · assumption

theorem Blames.not_accepts (hidentified : types.Identified) {e : TranslationError}
    {tokens : List (List Char)} (h : Blames types table e tokens) (kind : ResultKind) :
    ¬ Accepts types table kind tokens := by
  intro hacc
  cases h with
  | @unexpected before after token _ _ hnone =>
    exact hnone ⟨kind, after, by simpa using hacc⟩
  | unfinished _ hvalues =>
    obtain ⟨-, _, _, heq, -⟩ := Accepts.next hidentified hvalues hacc
    cases heq

/-- An expression translates exactly when its tokens are one of the language, and then to code of
its kind. Otherwise the error is about the first token with which they begin no expression, or
about the operation symbol at their end. -/
theorem translate_language (hanswers : types.Answers) (hidentified : types.Identified)
    (table : VariableTable) (text : String) :
    (∀ kind, (∃ code, (translate table text).run types = .ok code ∧ code.kind = kind) ↔
      Accepts types table kind (tokenize text.toList)) ∧
    ∀ e, (translate table text).run types = .error e →
      Blames types table e (tokenize text.toList) := by
  have hstart : Reads types table .start [] := .start
  have hne : [] ++ tokenize text.toList ≠ [] := tokenize_ne_nil text.toList
  have hread := hstart.readTokens hanswers hidentified "" hne
  rw [List.nil_append] at hread
  rcases hread with ⟨s, hs, haccepts⟩ | ⟨e, he, hblames⟩
  · have hcode : (translate table text).run types = .ok s.targetCode := by
      simp only [translate, sentence, Inquiry.run_bind, hs, Inquiry.run_pure]
    rw [hcode]
    refine ⟨fun kind => ⟨?_, fun h => ⟨_, rfl, haccepts.unique hidentified h⟩⟩, ?_⟩
    · rintro ⟨code, hsame, rfl⟩
      cases hsame
      exact haccepts
    · intro e he
      cases he
  · have hcode : (translate table text).run types = .error e := by
      simp only [translate, sentence, Inquiry.run_bind, he, Inquiry.run_pure]
    rw [hcode]
    refine ⟨fun kind => ⟨?_, fun h => absurd h (hblames.not_accepts hidentified kind)⟩, ?_⟩
    · rintro ⟨code, hsame, -⟩
      cases hsame
    · rintro _ ⟨⟩
      exact hblames

/-- An order has a count. -/
def orders : Registry := .ofTypes [⟨.record "Order", [⟨"count", .primitive .integer⟩]⟩]

/-- One order is declared. -/
def oneOrder : VariableTable :=
  ⟨Dictionary.insert ∅ "order" ⟨.record (.record "Order"), .null⟩, ∅, []⟩

/-- A count and a number can be added, and the text behind the symbol is blamed for being none. -/
theorem translate_language_order :
    Accepts orders oneOrder (.primitive .integer) (tokenize "order.count + 1".toList) ∧
      ∃ e, (translate oneOrder "order.count + 'x' - 1").run orders = .error e ∧
        e.token = "'x'" ∧ Blames orders oneOrder e (tokenize "order.count + 'x' - 1".toList) := by
  have hanswers : orders.Answers := fun name => ⟨_, rfl⟩
  have hidentified : orders.Identified := by
    intro name t ht f hf
    have hmem := List.mem_of_find?_eq_some (Except.ok.inj ht)
    obtain rfl := List.mem_singleton.mp hmem
    obtain rfl := List.mem_singleton.mp hf
    decide
  have hsum : (translate oneOrder "order.count + 1").run orders =
      .ok ⟨"return int(var(\"order\").field(\"count\").int() + 1);", .primitive .integer⟩ := by
    rfl
  have hwrong : (translate oneOrder "order.count + 'x' - 1").run orders =
      .error (.valueExpected .integer "+" "'x'") := by
    rfl
  refine ⟨((translate_language hanswers hidentified oneOrder _).1 _).mp ⟨_, hsum, rfl⟩, _, hwrong,
    rfl, ?_⟩
  exact (translate_language hanswers hidentified oneOrder _).2 _ hwrong

end Scriptorium.Expression

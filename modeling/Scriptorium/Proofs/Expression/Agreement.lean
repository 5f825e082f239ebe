import Scriptorium.Proofs.Expression.Leaves

/-!
# Translation and target code agree

The tokens of a translated expression stand in turn for operands and operations
of one kind, or there is a single token. The statement that is written spells a
formula with their leaves and operations, so it is read as the expression's
tree. Every leaf has a value but for an integer outside the 64 bits of a word,
and then the statement is refused.
-/

namespace Scriptorium

open Target

/-- The kind of the value that the statement returns. -/
def Formula.kind : Formula → ResultKind
  | .computed kind _ => .primitive kind
  | .reference _ => .reference
  | .null => .null

namespace Expression

section Tokens

variable (types : Registry) (table : VariableTable)

/-- Tokens that stand for operations of a kind and operands of the kind, in turn. -/
inductive Links (kind : PrimitiveKind) : List (List Char) → List (BinaryOp × Operand) → Prop
  | nil : Links kind [] []
  | cons {op : BinaryOp} {token : List Char} {o : Operand} {tokens : List (List Char)}
    {links : List (BinaryOp × Operand)} (hop : op ∈ tightOps kind ++ looseOps kind)
    (h : (classify table token).run types = .ok (some (.operand o))) (hkind : o.kind = kind)
    (k : Links kind tokens links) :
    Links kind (op.symbol.toList :: token :: tokens) ((op, o) :: links)

/-- The formula that tokens spell: a chain of operands, or a single term of another kind. -/
inductive Spells : List (List Char) → Formula → Prop
  | computed {token : List Char} {o : Operand} {tokens : List (List Char)}
    {links : List (BinaryOp × Operand)}
    (h : (classify table token).run types = .ok (some (.operand o)))
    (k : Links types table o.kind tokens links) :
    Spells (token :: tokens) (.computed o.kind (Chain.layered ⟨o, links⟩))
  | reference {token : List Char} {access : WrittenAccess}
    (h : (classify table token).run types = .ok (some (.reference access))) :
    Spells [token] (.reference access)
  | null {token : List Char} (h : (classify table token).run types = .ok (some .null)) :
    Spells [token] .null

variable {types table}

theorem ofSymbol?_symbol (op : BinaryOp) : BinaryOp.ofSymbol? op.symbol.toList = some op := by
  cases op <;> rfl

theorem operand_of_contains {kind : PrimitiveKind} {text : String}
    (h : kind.operands.contains text = true) :
    ∃ op ∈ tightOps kind ++ looseOps kind, op.symbol = text := by
  rw [List.contains_iff_mem] at h
  cases kind <;> simp only [PrimitiveKind.operands, List.mem_cons, List.not_mem_nil, or_false] at h
  all_goals simp [tightOps, looseOps, BinaryOp.symbol]
  all_goals grind

theorem readTokens_cons {previous : String} {state : State} {token : List Char}
    {tokens : List (List Char)} {s : Sentence}
    (h : (readTokens table previous state (token :: tokens)).run types = .ok s) :
    ∃ next, (advance table previous state token).run types = .ok next ∧
      (readTokens table (String.ofList token) next tokens).run types = .ok s := by
  simp only [readTokens, Inquiry.run_bind] at h
  split at h
  · simp at h
  · next next hnext => exact ⟨next, hnext, h⟩

theorem advance_start {previous : String} {token : List Char} {next : State}
    (h : (advance table previous .start token).run types = .ok next) :
    ∃ term, (classify table token).run types = .ok (some term) ∧ next = .ofTerm term := by
  simp only [advance, Inquiry.run_bind] at h
  rcases hclass : (classify table token).run types with cause | _ | term
  · simp [hclass] at h
  · simp [hclass] at h
  · simp only [hclass, Inquiry.run_pure, Except.ok.injEq] at h
    exact ⟨term, rfl, h.symm⟩

theorem advance_value {previous : String} {kind : PrimitiveKind} {first : Operand}
    {rest : List (String × Operand)} {token : List Char} {next : State}
    (h : (advance table previous (.value kind first rest) token).run types = .ok next) :
    ∃ op ∈ tightOps kind ++ looseOps kind, token = op.symbol.toList ∧
      next = .operation kind first rest op.symbol := by
  simp only [advance] at h
  split at h
  · next hsymbol =>
    obtain ⟨op, hop, hsym⟩ := operand_of_contains hsymbol
    simp only [Inquiry.run_pure, Except.ok.injEq] at h
    refine ⟨op, hop, ?_, ?_⟩
    · rw [hsym, String.toList_ofList]
    · rw [hsym]
      exact h.symm
  · simp at h

theorem advance_operation {previous : String} {kind : PrimitiveKind} {first : Operand}
    {rest : List (String × Operand)} {symbol : String} {token : List Char} {next : State}
    (h : (advance table previous (.operation kind first rest symbol) token).run types = .ok next) :
    ∃ o, (classify table token).run types = .ok (some (.operand o)) ∧ o.kind = kind ∧
      next = .value kind first (rest ++ [(symbol, o)]) := by
  simp only [advance, Inquiry.run_bind] at h
  rcases hclass : (classify table token).run types with cause | _ | term
  · simp [hclass] at h
  · simp [hclass] at h
  · cases term with
    | operand o =>
      by_cases hkind : o.kind = kind
      · simp only [hclass, Option.bind_some, State.continue?, hkind, if_true, Inquiry.run_pure,
          Except.ok.injEq] at h
        exact ⟨o, rfl, hkind, h.symm⟩
      · simp [hclass, State.continue?, hkind] at h
    | reference access => simp [hclass, State.continue?] at h
    | null => simp [hclass, State.continue?] at h

/-- Behind a value, operations and operands of its kind stand in turn. -/
theorem readTokens_value {kind : PrimitiveKind} {first : Operand} {s : Sentence} :
    ∀ {tokens : List (List Char)} {previous : String} {rest : List (String × Operand)},
      (readTokens table previous (.value kind first rest) tokens).run types = .ok s →
      ∃ links, Links types table kind tokens links ∧
        s = .computed kind first (rest ++ links.map fun x => (x.1.symbol, x.2))
  | [], previous, rest, h => by
    simp only [readTokens, finish, Inquiry.run_pure, Except.ok.injEq] at h
    exact ⟨[], .nil, by simp [h]⟩
  | [symbol], previous, rest, h => by
    obtain ⟨next, hnext, h⟩ := readTokens_cons h
    obtain ⟨op, -, -, rfl⟩ := advance_value hnext
    simp [readTokens, finish] at h
  | symbol :: token :: tokens, previous, rest, h => by
    obtain ⟨next, hnext, h⟩ := readTokens_cons h
    obtain ⟨op, hop, rfl, rfl⟩ := advance_value hnext
    obtain ⟨next, hnext, h⟩ := readTokens_cons h
    obtain ⟨o, hclass, hkind, rfl⟩ := advance_operation hnext
    obtain ⟨links, hlinks, rfl⟩ := readTokens_value h
    exact ⟨(op, o) :: links, .cons hop hclass hkind hlinks, by simp⟩

theorem readTokens_closed {s t : Sentence} {tokens : List (List Char)} {previous : String}
    (h : (readTokens table previous (.closed t) tokens).run types = .ok s) :
    tokens = [] ∧ s = t := by
  cases tokens with
  | nil =>
    simp only [readTokens, finish, Inquiry.run_pure, Except.ok.injEq] at h
    exact ⟨rfl, h.symm⟩
  | cons token tokens =>
    obtain ⟨next, hnext, -⟩ := readTokens_cons h
    simp [advance] at hnext

theorem chainCode_layered (first : Operand) (links : List (BinaryOp × Operand)) :
    Sentence.chainCode first (links.map fun x => (x.1.symbol, x.2)) =
      (Chain.layered ⟨first, links⟩).code (Chain.code Operand.code) := by
  rw [Chain.code_layered]
  simp [Sentence.chainCode, Chain.code, List.flatMap_map]

/-- The tokens of a translated expression spell a formula with the same code. -/
theorem sentence_spells {text : String} {s : Sentence}
    (h : (sentence table text).run types = .ok s) :
    ∃ f, Spells types table (tokenize text.toList) f ∧ f.valueCode = s.valueCode ∧
      f.kind = s.kind := by
  unfold sentence at h
  cases htokens : tokenize text.toList with
  | nil =>
    rw [htokens] at h
    simp [readTokens, finish] at h
  | cons token tokens =>
    rw [htokens] at h
    obtain ⟨next, hnext, h⟩ := readTokens_cons h
    obtain ⟨term, hclass, rfl⟩ := advance_start hnext
    cases term with
    | operand o =>
      obtain ⟨links, hlinks, rfl⟩ := readTokens_value h
      refine ⟨_, .computed hclass hlinks, ?_, rfl⟩
      simp only [Formula.valueCode, Sentence.valueCode, List.nil_append, chainCode_layered]
    | reference access =>
      obtain ⟨rfl, rfl⟩ := readTokens_closed h
      exact ⟨_, .reference hclass, rfl, rfl⟩
    | null =>
      obtain ⟨rfl, rfl⟩ := readTokens_closed h
      exact ⟨_, .null hclass, rfl, rfl⟩

theorem Links.spelled {kind : PrimitiveKind} {tokens : List (List Char)}
    {links : List (BinaryOp × Operand)} (h : Links types table kind tokens links) :
    ∀ x ∈ links, x.1 ∈ tightOps kind ++ looseOps kind ∧ x.2.Spelled kind := by
  induction h with
  | nil => simp
  | cons hop h hkind _ ih =>
    intro x hx
    rcases List.mem_cons.mp hx with rfl | hx
    · obtain ⟨-, -, hspelled⟩ := classify_leaf h
      subst hkind
      exact ⟨hop, hspelled⟩
    · exact ih x hx

theorem Spells.spelled {tokens : List (List Char)} {f : Formula}
    (h : Spells types table tokens f) : f.Spelled := by
  cases h with
  | computed h k =>
    obtain ⟨-, -, hspelled⟩ := classify_leaf h
    refine Chain.layered_spelled ?_ ?_ ⟨hspelled, k.spelled⟩
    · intro op hop
      revert op
      cases Operand.kind _ <;> decide
    · intro op hop
      revert op
      cases Operand.kind _ <;> decide
  | reference h =>
    obtain ⟨-, -, hspelled, -⟩ := classify_leaf h
    exact hspelled
  | null => trivial

/-- The leaf of an operand, null when it has none. -/
def operandLeaf (o : Operand) : Node := o.node.toOption.getD .null

theorem node_of_isSome {o : Operand} (h : o.node.toOption.isSome = true) :
    o.node = .ok (operandLeaf o) := by
  unfold operandLeaf
  rcases hnode : o.node with e | node
  · simp [hnode, Except.toOption] at h
  · rfl

theorem node_of_isNone {o : Operand} (h : ¬o.node.toOption.isSome = true) :
    ∃ e, o.node = .error e := by
  rcases hnode : o.node with e | node
  · exact ⟨e, rfl⟩
  · simp [hnode, Except.toOption] at h

theorem symbol_inWord (op : BinaryOp) : InWord op.symbol.toList := by
  have h : Text.isInteger op.symbol.toList = false := by cases op <;> decide
  intro k
  rw [h] at k
  cases k

theorem operand_leaf {token : List Char} {o : Operand}
    (h : (classify table token).run types = .ok (some (.operand o))) (hword : InWord token) :
    leaf? types table token = some (operandLeaf o) ∧ o.node = .ok (operandLeaf o) := by
  obtain ⟨hleaf, hsome, -⟩ := classify_leaf h
  have hnode := node_of_isSome (hsome.mpr hword)
  refine ⟨?_, hnode⟩
  rw [hleaf, Term.leaf?, hnode]
  rfl

theorem Links.leaves {kind : PrimitiveKind} {tokens : List (List Char)}
    {links : List (BinaryOp × Operand)} (h : Links types table kind tokens links)
    (hword : ∀ token ∈ tokens, InWord token) :
    links? (leaf? types table) tokens = some (links.map fun x => (x.1, operandLeaf x.2)) ∧
      ∀ x ∈ links, x.2.node = .ok (operandLeaf x.2) := by
  induction h with
  | nil => exact ⟨rfl, by simp⟩
  | cons hop h _ _ ih =>
    obtain ⟨hlinks, hnodes⟩ := ih fun t ht => hword t (by simp [ht])
    obtain ⟨hleaf, hnode⟩ := operand_leaf h (hword _ (by simp))
    refine ⟨?_, ?_⟩
    · simp [links?, ofSymbol?_symbol, hleaf, hlinks]
    · intro x hx
      rcases List.mem_cons.mp hx with rfl | hx
      · exact hnode
      · exact hnodes x hx

theorem Links.unreadable {kind : PrimitiveKind} {tokens : List (List Char)}
    {links : List (BinaryOp × Operand)} (h : Links types table kind tokens links)
    (hword : ∃ token ∈ tokens, ¬InWord token) : ∃ x ∈ links, ∃ e, x.2.node = .error e := by
  induction h with
  | nil => simp at hword
  | @cons op _ o _ _ hop h _ _ ih =>
    obtain ⟨token, htoken, hwide⟩ := hword
    rcases List.mem_cons.mp htoken with rfl | htoken
    · exact absurd (symbol_inWord _) hwide
    rcases List.mem_cons.mp htoken with rfl | htoken
    · obtain ⟨-, hsome, -⟩ := classify_leaf h
      exact ⟨(op, o), by simp, node_of_isNone fun k => hwide (hsome.mp k)⟩
    · obtain ⟨x, hx, hnode⟩ := ih ⟨token, htoken, hwide⟩
      exact ⟨x, by simp [hx], hnode⟩

/-- Where every integer is a word, the formula has the tree of the expression. -/
theorem Spells.tree {text : String} {f : Formula}
    (h : Spells types table (tokenize text.toList) f)
    (hword : ∀ token ∈ tokenize text.toList, InWord token) :
    ∃ root, f.expr = .ok ⟨f.kind, root⟩ ∧ tree? types table text = some root := by
  unfold tree?
  generalize tokenize text.toList = tokens at h hword
  cases h with
  | @computed token o tokens links h k =>
    obtain ⟨hleaf, hnode⟩ := operand_leaf h (hword _ (by simp))
    obtain ⟨hlinks, hnodes⟩ := k.leaves fun t ht => hword t (by simp [ht])
    have hitems : ∀ a ∈ (Chain.mk o links).items, a.node = .ok (operandLeaf a) := by
      intro a ha
      rcases List.mem_cons.mp ha with rfl | ha
      · exact hnode
      · obtain ⟨x, hx, rfl⟩ := List.mem_map.mp ha
        exact hnodes x hx
    have hfold := Chain.layered_fold_ok hitems
    refine ⟨(Chain.mk o links).layered.tree (Chain.tree operandLeaf), ?_, ?_⟩
    · simp [Formula.expr, hfold, Formula.kind, bind, Except.bind, pure, Except.pure]
    have hmap : (⟨operandLeaf o, links.map fun x => (x.1, operandLeaf x.2)⟩ : Chain Node) =
        (Chain.mk o links).map operandLeaf := rfl
    simp only [leaves?, hleaf, hlinks, Option.bind_eq_bind, Option.bind_some, Option.pure_def,
      Option.map_some, hmap, Chain.layered_map, Chain.tree_map, id]
  | @reference token access h =>
    obtain ⟨hleaf, -, -, a, haccess⟩ := classify_leaf h
    refine ⟨.reference a, ?_, ?_⟩
    · simp [Formula.expr, haccess, Formula.kind, bind, Except.bind, pure, Except.pure]
    · simp [leaves?, hleaf, Term.leaf?, haccess, Except.toOption, Except.map, links?,
        Chain.layered, Chain.runs, Chain.tree]
  | null h =>
    obtain ⟨hleaf, -, -⟩ := classify_leaf h
    exact ⟨.null, rfl, by simp [leaves?, hleaf, Term.leaf?, links?, Chain.layered, Chain.runs,
      Chain.tree]⟩

/-- Where an integer is no word, the formula has no tree. -/
theorem Spells.unreadable {tokens : List (List Char)} {f : Formula}
    (h : Spells types table tokens f) (hword : ∃ token ∈ tokens, ¬InWord token) :
    ∃ e, f.expr = .error e := by
  obtain ⟨token, htoken, hwide⟩ := hword
  cases h with
  | @computed first o tokens links h k =>
    have hitem : ∃ a ∈ (Chain.mk o links).items, ∃ e, a.node = .error e := by
      rcases List.mem_cons.mp htoken with rfl | htoken
      · obtain ⟨-, hsome, -⟩ := classify_leaf h
        exact ⟨o, by simp [Chain.items], node_of_isNone fun k => hwide (hsome.mp k)⟩
      · obtain ⟨x, hx, hnode⟩ := k.unreadable ⟨token, htoken, hwide⟩
        exact ⟨x.2, List.mem_cons_of_mem _ (List.mem_map_of_mem hx), hnode⟩
    obtain ⟨a, ha, e, hnode⟩ := hitem
    obtain ⟨e, he⟩ := Chain.layered_fold_error ha hnode
    exact ⟨e, by simp [Formula.expr, he, bind, Except.bind]⟩
  | reference h =>
    obtain rfl := List.mem_singleton.mp htoken
    obtain ⟨-, hsome, -, a, haccess⟩ := classify_leaf h
    exact absurd (hsome.mp (by simp [Term.leaf?, haccess, Except.toOption, Except.map])) hwide
  | null h =>
    obtain rfl := List.mem_singleton.mp htoken
    obtain ⟨-, hsome, -⟩ := classify_leaf h
    exact absurd (hsome.mp rfl) hwide

end Tokens

theorem toList_targetCode (s : Sentence) : s.targetCode.text.toList = s.statement :=
  String.toList_ofList

/-- The statement that an expression translates to is read as the formula that its tokens spell. -/
theorem sentence_formula {types : Registry} {table : VariableTable} {text : String} {s : Sentence}
    (h : (sentence table text).run types = .ok s) :
    ∃ f, Spells types table (tokenize text.toList) f ∧
      parseFormula s.targetCode.text.toList = .ok f ∧ f.kind = s.kind := by
  obtain ⟨f, hspells, hcode, hkind⟩ := sentence_spells h
  refine ⟨f, hspells, ?_, hkind⟩
  have hparse := parseFormula_valueCode hspells.spelled
  rw [hcode] at hparse
  rw [toList_targetCode]
  exact hparse

/-- The statement that an expression translates to is read as the expression's tree, unless an
integer literal is no word of 64 bits: then it is refused. -/
theorem parseTarget_translate {types : Registry} {table : VariableTable} {text : String}
    {code : TargetCode} (h : (translate table text).run types = .ok code) :
    ((∀ token ∈ tokenize text.toList, InWord token) →
      ∃ root, parseTarget code.text.toList = .ok ⟨code.kind, root⟩ ∧
        tree? types table text = some root) ∧
    ((∃ token ∈ tokenize text.toList, ¬InWord token) →
      ∃ e, parseTarget code.text.toList = .error e) := by
  simp only [translate, Inquiry.run_bind] at h
  rcases hs : (sentence table text).run types with e | s
  · simp [hs] at h
  simp only [hs, Inquiry.run_pure, Except.ok.injEq] at h
  subst h
  obtain ⟨f, hspells, hparse, hkind⟩ := sentence_formula hs
  refine ⟨fun hword => ?_, fun hword => ?_⟩
  · obtain ⟨root, hexpr, htree⟩ := hspells.tree hword
    refine ⟨root, ?_, htree⟩
    rw [parseTarget, hparse]
    simp only [hexpr]
    rw [hkind]
    rfl
  · obtain ⟨e, he⟩ := hspells.unreadable hword
    refine ⟨.range e, ?_⟩
    rw [parseTarget, hparse]
    simp only [he]

theorem parseTarget_translate_sum :
    (translate .empty "1 + 2 * 3").run (Registry.ofTypes []) =
        .ok ⟨"return int(1 + 2 * 3);", .primitive .integer⟩ ∧
      ∃ root, parseTarget "return int(1 + 2 * 3);".toList = .ok ⟨.primitive .integer, root⟩ ∧
        tree? (Registry.ofTypes []) .empty "1 + 2 * 3" = some root := by
  have h : (translate .empty "1 + 2 * 3").run (Registry.ofTypes []) =
      .ok ⟨"return int(1 + 2 * 3);", .primitive .integer⟩ := rfl
  exact ⟨h, (parseTarget_translate h).1 (by unfold InWord; decide +kernel)⟩

end Expression

end Scriptorium

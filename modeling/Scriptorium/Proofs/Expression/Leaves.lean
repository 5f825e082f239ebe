import Mathlib.Algebra.Group.Int.Defs
import Scriptorium.Proofs.Decimal.Text
import Scriptorium.Proofs.Expression.Scope
import Scriptorium.Proofs.Expression.Tree
import Scriptorium.Proofs.Text.Numeral

/-!
# Value tokens and their leaves

A token that is classified as a term has the term's leaf: the fields of a chain
lead to the slot that the tree reads, and the element number of the term is one
less than the token's. Only an integer literal may be without a leaf, namely
when it is no word of 64 bits.
-/

namespace Scriptorium

/-- The leaf of a term, when its numbers are numbers of the machine. -/
def Term.leaf? : Term → Option Node
  | .operand o => o.node.toOption
  | .reference access => (access.access.map Node.reference).toOption
  | .null => some .null

/-- The numerals of a term are spelled well. -/
def Term.Spelled : Term → Prop
  | .operand o => o.Spelled o.kind
  | .reference access => access.Spelled ∧ ∃ a, access.access = .ok a
  | .null => True

namespace Expression

/-- A token that is an integer literal denotes a word of 64 bits. -/
def InWord (token : List Char) : Prop :=
  Text.isInteger token = true →
    -(2 ^ 63 : Int) ≤ Text.integerValue token ∧ Text.integerValue token < 2 ^ 63

theorem ofInt?_isSome_iff (n : Int) :
    (Integer.ofInt? n).isSome = true ↔ -(2 ^ 63 : Int) ≤ n ∧ n < 2 ^ 63 := by
  have hmin : Int64.minValue.toInt = -(2 ^ 63 : Int) := by decide
  have hmax : Int64.maxValue.toInt = (2 ^ 63 : Int) - 1 := by decide
  unfold Integer.ofInt?
  rw [hmin, hmax]
  split
  · simp
    omega
  · simp
    omega

theorem access_fields (head : List Char) (fields : List (List Char)) :
    (WrittenAccess.mk head (fields.map .field)).access =
      .ok ⟨String.ofList head, fields.map fun f => .field (String.ofList f)⟩ := by
  have hsteps : (fields.map WrittenStep.field).mapM WrittenStep.step =
      .ok (fields.map fun f => .field (String.ofList f)) := by
    induction fields with
    | nil => rfl
    | cons f fields ih => simp [List.mapM_cons, WrittenStep.step, ih, bind, Except.bind, pure, Except.pure]
  simp [WrittenAccess.access, hsteps, bind, Except.bind, pure, Except.pure]

theorem accessTerm_leaf (head : List Char) (fields : List (List Char)) (type : SemanticType) :
    (accessTerm ⟨head, fields.map .field⟩ type).leaf? =
      some (Access.leaf ⟨String.ofList head, fields.map fun f => .field (String.ofList f)⟩ type) ∧
    (accessTerm ⟨head, fields.map .field⟩ type).Spelled := by
  have hspelled : (WrittenAccess.mk head (fields.map .field)).Spelled := by
    intro s hs
    obtain ⟨f, -, rfl⟩ := List.mem_map.mp hs
    trivial
  have haccess := access_fields head fields
  cases type with
  | primitive kind =>
    refine ⟨?_, rfl, hspelled⟩
    simp [accessTerm, Term.leaf?, Operand.node, haccess, Access.leaf, Except.toOption, bind,
      Except.bind, pure, Except.pure]
  | array =>
    refine ⟨?_, hspelled, _, haccess⟩
    simp [accessTerm, Term.leaf?, haccess, Access.leaf, Except.toOption, Except.map]
  | record name =>
    refine ⟨?_, hspelled, _, haccess⟩
    simp [accessTerm, Term.leaf?, haccess, Access.leaf, Except.toOption, Except.map]

theorem followFields_slot {types : Registry} {head : List Char} (passed : List (List Char))
    {fields : List (List Char)} {type : SemanticType} {term : Term}
    (h : (followFields ⟨head, passed.map .field⟩ type fields).run types = .ok (some term)) :
    ∃ t, slotType? types type (fields.map String.ofList) = some t ∧
      term = accessTerm ⟨head, (passed ++ fields).map .field⟩ t := by
  induction fields generalizing passed type with
  | nil =>
    refine ⟨type, rfl, ?_⟩
    simp only [followFields, Inquiry.run_pure, Except.ok.injEq, Option.some.injEq] at h
    simp [h]
  | cons field fields ih =>
    cases type with
    | primitive kind => simp [followFields] at h
    | array => simp [followFields] at h
    | record name =>
      simp only [followFields, Inquiry.run_bind, Inquiry.run_lookup] at h
      rcases hname : types name with cause | _ | t
      · simp [hname] at h
      · simp [hname] at h
      · simp only [hname] at h
        rcases hfield : t.field? (String.ofList field) with _ | d
        · simp [hfield] at h
        · simp only [hfield] at h
          have hpassed : passed.map WrittenStep.field ++ [.field field] =
              (passed ++ [field]).map .field := by simp
          rw [hpassed] at h
          obtain ⟨type, htype, hterm⟩ := ih _ h
          refine ⟨type, ?_, ?_⟩
          · exact slotType?_cons.mpr ⟨name, t, d, rfl, hname, hfield, htype⟩
          · simpa using hterm

theorem element_leaf {table : VariableTable} {token : List Char} {term : Term}
    (h : element? table token = some term) :
    elementLeaf? token = term.leaf? ∧ term.leaf?.isSome = true ∧ term.Spelled := by
  obtain ⟨name, rest, hsplit, -, -, -, -, hbound, rfl⟩ := element?_eq_some.mp h
  have hless : Text.digitsValue rest.dropLast - 1 < WrittenStep.indexBound := by omega
  have haccess : (WrittenAccess.mk name
      [.index (Text.natDigits (Text.digitsValue rest.dropLast - 1))]).access =
      .ok ⟨String.ofList name, [.index (Text.digitsValue rest.dropLast - 1)]⟩ := by
    simp [WrittenAccess.access, WrittenStep.step, Text.digitsValue_natDigits, hless,
      bind, Except.bind, pure, Except.pure]
  refine ⟨?_, ?_, ?_, _, haccess⟩
  · simp [elementLeaf?, hsplit, Term.leaf?, haccess, Except.toOption, Except.map]
  · simp [Term.leaf?, haccess, Except.toOption, Except.map]
  · intro s hs
    obtain rfl := List.mem_singleton.mp hs
    exact Text.isDigits_natDigits _

theorem splitAt_of_not_mem {sep : Char} {cs : List Char} (h : cs.contains sep = false) :
    Text.splitAt sep cs = (cs, []) := by
  induction cs with
  | nil => rfl
  | cons c cs ih =>
    simp only [List.contains_cons, Bool.or_eq_false_iff, beq_eq_false_iff_ne, ne_eq] at h
    simp [Text.splitAt, ih h.2, Ne.symm h.1]

theorem fieldChain_leaf {types : Registry} {table : VariableTable} {token : List Char}
    {term : Term} (h : (fieldChain table token).run types = .ok (some term)) :
    slotLeaf? types table token = term.leaf? ∧ term.leaf?.isSome = true ∧ term.Spelled := by
  obtain ⟨-, v, hget, hfollow⟩ := fieldChain_eq_some.mp h
  obtain ⟨t, ht, rfl⟩ := followFields_slot [] hfollow
  obtain ⟨hleaf, hspelled⟩ := accessTerm_leaf (Text.splitAt '.' token).1 (Text.splitAt '.' token).2 t
  rw [List.nil_append, hleaf]
  exact ⟨by simp [slotLeaf?, hget, ht], rfl, hspelled⟩

theorem variableTerm_leaf (types : Registry) {table : VariableTable} {token : List Char}
    {term : Term} (hpoint : token.contains '.' = false) (h : variableTerm? table token = some term) :
    slotLeaf? types table token = term.leaf? ∧ term.leaf?.isSome = true ∧ term.Spelled := by
  obtain ⟨-, v, hget, rfl⟩ := variableTerm?_eq_some.mp h
  obtain ⟨hleaf, hspelled⟩ := accessTerm_leaf token [] v.type
  simp only [List.map_nil] at hleaf hspelled
  rw [hleaf]
  exact ⟨by simp [slotLeaf?, splitAt_of_not_mem hpoint, hget, slotType?], rfl, hspelled⟩

theorem integer_leaf {token : List Char} (h : Text.isInteger token = true) :
    (Integer.read? token).map (fun n => .literal (.integer n)) =
      (Term.operand (.integer token)).leaf? := by
  simp only [Term.leaf?, Operand.node, Integer.read?, h, if_true]
  cases Integer.ofInt? (Text.integerValue token) <;> rfl

/-- The leaf of a token is that of the term that it spells. -/
theorem leaf?_eq (types : Registry) (table : VariableTable) (token : List Char) :
    leaf? types table token =
      match literalTerm? token with
      | some term => term.leaf?
      | none =>
        if token.getLast? = some ']' then elementLeaf? token else slotLeaf? types table token := by
  unfold leaf? literalTerm?
  split; · rfl
  split
  · next hinteger => exact integer_leaf hinteger
  split
  · next hdecimal =>
    obtain ⟨d, hd⟩ := Decimal.read?_of_isDecimal hdecimal
    simp [Term.leaf?, Operand.node, hd, Except.toOption]
  split; · rfl
  split; · rfl
  cases stringLiteral? token <;> rfl

/-- Only an integer may lack a leaf. -/
theorem literalTerm_leaf {token : List Char} {term : Term} (h : LiteralTerm token term) :
    (term.leaf?.isSome = true ↔ InWord token) ∧ term.Spelled := by
  have hother {token : List Char} (hinteger : Text.isInteger token = false) : InWord token :=
    fun k => absurd k (by simp [hinteger])
  cases h with
  | null | true | false => exact ⟨iff_of_true rfl (hother rfl), by constructor⟩
  | integer hinteger =>
    refine ⟨?_, rfl, hinteger⟩
    rw [← integer_leaf hinteger, Option.isSome_map, Integer.read?, if_pos hinteger,
      ofInt?_isSome_iff]
    exact ⟨fun hword _ => hword, fun hword => hword hinteger⟩
  | decimal hinteger hdecimal =>
    obtain ⟨d, hd⟩ := Decimal.read?_of_isDecimal hdecimal
    refine ⟨iff_of_true ?_ (hother hinteger), rfl, hdecimal⟩
    simp [Term.leaf?, Operand.node, hd, Except.toOption]
  | @string content hquote =>
    obtain ⟨hinteger, -⟩ := not_numeral (by decide) (by decide : '\'' ≠ '-') (by decide)
      (content ++ ['\''])
    exact ⟨iff_of_true rfl (hother hinteger), rfl⟩

/-- A value token is classified as a term with its leaf, which only an integer may lack. -/
theorem classify_leaf {types : Registry} {table : VariableTable} {token : List Char} {term : Term}
    (h : (classify table token).run types = .ok (some term)) :
    leaf? types table token = term.leaf? ∧ (term.leaf?.isSome = true ↔ InWord token) ∧
      term.Spelled := by
  rw [leaf?_eq]
  rcases classify_eq_some.mp h with hliteral | ⟨hnone, hslot⟩
  · rw [literalTerm?_of_literalTerm hliteral]
    exact ⟨rfl, literalTerm_leaf hliteral⟩
  · have hword : InWord token := by
      intro hinteger
      rw [literalTerm?_of_literalTerm (.integer hinteger)] at hnone
      cases hnone
    rw [hnone]
    cases hslot with
    | element hclose h =>
      obtain ⟨hleaf, hsome, hspelled⟩ := element_leaf h
      exact ⟨(if_pos hclose).trans hleaf, iff_of_true hsome hword, hspelled⟩
    | chain hclose _ h =>
      obtain ⟨hleaf, hsome, hspelled⟩ := fieldChain_leaf h
      exact ⟨(if_neg hclose).trans hleaf, iff_of_true hsome hword, hspelled⟩
    | declared hclose hpoint h =>
      obtain ⟨hleaf, hsome, hspelled⟩ := variableTerm_leaf types hpoint h
      exact ⟨(if_neg hclose).trans hleaf, iff_of_true hsome hword, hspelled⟩

end Expression

end Scriptorium

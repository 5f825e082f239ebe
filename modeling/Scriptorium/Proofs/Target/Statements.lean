import Scriptorium.Proofs.Target.Operands

/-!
# Statements of target code are read as they are written

A formula spelled from well-spelled operands, with a blank around each
operation, is taken back with its layers: the operations of a group end where
the symbol of a loose operation or the closing bracket stands, and those of the
formula end at the bracket. So the grammar yields the formula that was written.
-/

namespace Scriptorium

namespace Chain

variable {α : Type}

/-- The target code of a chain from that of its items. -/
def code (item : α → List Char) (c : Chain α) : List Char :=
  item c.first ++ c.rest.flatMap fun (op, a) => ' ' :: op.symbol.toList ++ ' ' :: item a

/-- Every item is spelled well, and only these operations stand between the items. -/
def Spelled (ops : List BinaryOp) (item : α → Prop) (c : Chain α) : Prop :=
  item c.first ∧ ∀ x ∈ c.rest, x.1 ∈ ops ∧ item x.2

end Chain

namespace Formula

/-- The target code of the value that the statement returns. -/
def valueCode : Formula → List Char
  | .computed kind groups => callCode kind.accessor (groups.code (Chain.code Operand.code))
  | .reference access => access.code
  | .null => "null".toList

/-- The operands belong to the kind, and each layer has the operations of the kind. -/
def Spelled : Formula → Prop
  | .computed kind groups => groups.Spelled (Target.looseOps kind)
      (Chain.Spelled (Target.tightOps kind) (Operand.Spelled kind))
  | .reference access => access.Spelled
  | .null => True

end Formula

namespace Target

open Grammar Grammar.Rule Text

variable {α : Type}

theorem symbol_refuses {op other : BinaryOp} (h : op ≠ other) (rest : List Char) :
    Refuses (symbol op) (other.symbol.toList ++ rest) := by
  refine ((word_refuses ?_).map _).named
  cases op <;> cases other <;> first | exact absurd rfl h | rfl

theorem anySymbol_takes {op : BinaryOp} {ops : List BinaryOp} (h : op ∈ ops) (rest : List Char) :
    Takes (anySymbol ops) (op.symbol.toList ++ rest) op rest := by
  induction ops with
  | nil => cases h
  | cons other ops ih =>
    by_cases hop : other = op
    · subst hop
      exact ((word_takes _ _).map _).named.orElse _
    · have hmem : op ∈ ops := by
        rcases List.mem_cons.mp h with e | hmem
        · exact absurd e.symm hop
        · exact hmem
      exact (symbol_refuses hop rest).orElse_takes (ih hmem)

theorem anySymbol_refuses {op : BinaryOp} {ops : List BinaryOp} (h : op ∉ ops)
    (rest : List Char) : Refuses (anySymbol ops) (op.symbol.toList ++ rest) := by
  induction ops with
  | nil => rfl
  | cons other ops ih =>
    have hne : other ≠ op := fun e => h (by simp [e])
    have hmem : op ∉ ops := fun m => h (by simp [m])
    exact (symbol_refuses hne rest).orElse (ih hmem)

theorem anySymbol_refuses_bracket (ops : List BinaryOp) (rest : List Char) :
    Refuses (anySymbol ops) (')' :: rest) := by
  induction ops with
  | nil => rfl
  | cons op ops ih =>
    refine Refuses.orElse (((word_refuses ?_).map _).named) ih
    cases op <;> rfl

theorem symbol_tight (op : BinaryOp) (rest : List Char) :
    Tight (op.symbol.toList ++ rest) := by
  cases op <;> exact tight_word rfl rest

/-- What may follow an operand: the closing bracket, or an operation between blanks. -/
inductive Follows : List Char → Prop
  | bracket (rest : List Char) : Follows (')' :: rest)
  | operation (op : BinaryOp) (rest : List Char) : Follows (' ' :: (op.symbol.toList ++ ' ' :: rest))

theorem Follows.endsDigits {rest : List Char} (h : Follows rest) : EndsDigits rest := by
  intro c hc
  cases h with
  | bracket rest =>
    obtain rfl : ')' = c := by simpa using hc
    rfl
  | operation op rest =>
    obtain rfl : ' ' = c := by simpa using hc
    rfl

theorem operand_takes {kind : PrimitiveKind} {o : Operand} (h : o.Spelled kind)
    {rest : List Char} (hrest : Follows rest) : Takes (operand kind) (o.code ++ rest) o rest := by
  cases o with
  | integer numeral =>
    obtain ⟨rfl, hn⟩ := h
    exact (numeral_refuses (.inl hn) _ rest).orElse_takes
      ((cut_takes (cutInteger_append hn hrest.endsDigits)).named.map _)
  | decimal numeral =>
    obtain ⟨rfl, hn⟩ := h
    exact (numeral_refuses (.inr hn) _ rest).orElse_takes
      ((cut_takes (cutDecimal_append hn hrest.endsDigits)).named.map _)
  | boolean b =>
    obtain rfl := h
    cases b with
    | true =>
      exact (read_refuses rfl _).orElse_takes (((word_takes "true".toList rest).map _).orElse _ |>.named.map _)
    | false =>
      refine (read_refuses rfl _).orElse_takes (Takes.map (Takes.named ?_) _)
      exact ((word_refuses rfl).map _).orElse_takes ((word_takes "false".toList rest).map _)
  | string content =>
    obtain rfl := h
    exact (read_refuses rfl _).orElse_takes ((quoted_takes content rest).map _)
  | read access k =>
    obtain ⟨rfl, hspelled⟩ := h
    exact (read_takes hspelled k rest).orElse _

theorem operand_tight {kind : PrimitiveKind} {o : Operand} (h : o.Spelled kind)
    (rest : List Char) : Tight (o.code ++ rest) := by
  cases o with
  | integer numeral => exact numeral_tight (.inl h.2) rest
  | decimal numeral => exact numeral_tight (.inr h.2) rest
  | boolean b => cases b <;> exact tight_word rfl rest
  | string content => exact tight_cons rfl _
  | read access k => exact tight_cons rfl _

/-- An operation with the item behind it. -/
def link (item : Rule α) (ops : List BinaryOp) : Rule (BinaryOp × α) :=
  andThen (anySymbol ops) fun op => map (fun a => (op, a)) (spaced item)

theorem link_reads {item : Rule α} {ops : List BinaryOp} {op : BinaryOp} {a : α}
    {cs rest : List Char} (hop : op ∈ ops) (htight : Tight cs) (h : Reads item cs a rest) :
    Reads (link item ops) (op.symbol.toList ++ ' ' :: cs) (op, a) rest := by
  obtain ⟨left, htakes, hleft⟩ := h
  have hspaced : Takes (spaced item) (' ' :: cs) a left := by
    rw [spaced_takes_iff]
    have hblank : (' ' :: cs).dropWhile isSpace = cs := htight
    rw [hblank]
    exact htakes
  exact Takes.andThen_reads (anySymbol_takes hop _) ⟨left, hspaced.map _, hleft⟩

/-- The operations of a chain with their items, each operation between blanks. -/
def linksCode (code : α → List Char) (links : List (BinaryOp × α)) : List Char :=
  links.flatMap fun (op, a) => ' ' :: op.symbol.toList ++ ' ' :: code a

theorem linksCode_cons (code : α → List Char) (op : BinaryOp) (a : α)
    (links : List (BinaryOp × α)) (tail : List Char) :
    linksCode code ((op, a) :: links) ++ tail =
      ' ' :: (op.symbol.toList ++ ' ' :: (code a ++ (linksCode code links ++ tail))) := by
  simp [linksCode]

section Chains

variable {item : Rule α} {code : α → List Char} {ops : List BinaryOp} {spelled : α → Prop}
  {tail : List Char}

/-- Behind an item of a chain stands an operation of the chain or the text behind the chain. -/
theorem linksCode_follows (code : α → List Char) (tail : List Char)
    {links : List (BinaryOp × α)} (h : ∀ x ∈ links, x.1 ∈ ops) :
    linksCode code links ++ tail = tail ∨
      ∃ op ∈ ops, ∃ cs, linksCode code links ++ tail = ' ' :: (op.symbol.toList ++ ' ' :: cs) := by
  cases links with
  | nil => exact .inl rfl
  | cons x links =>
    obtain ⟨op, a⟩ := x
    exact .inr ⟨op, h (op, a) (by simp), _, linksCode_cons code op a links tail⟩

theorem links_repeat
    (hitem : ∀ a, spelled a → ∀ rest,
      (rest = tail ∨ ∃ op ∈ ops, ∃ cs, rest = ' ' :: (op.symbol.toList ++ ' ' :: cs)) →
        Reads item (code a ++ rest) a rest)
    (htight : ∀ a, spelled a → ∀ rest, Tight (code a ++ rest))
    (hend : Refuses (anySymbol ops) (tail.dropWhile isSpace))
    {links : List (BinaryOp × α)} (h : ∀ x ∈ links, x.1 ∈ ops ∧ spelled x.2) {mid : List Char}
    (hmid : Trims mid (linksCode code links ++ tail)) :
    ∃ left, Repeats (link item ops) mid links left ∧ Trims left tail := by
  induction links generalizing mid with
  | nil =>
    refine ⟨mid, .done (spaced_refuses_iff.mpr ?_), hmid⟩
    rw [hmid.1]
    exact hend.andThen _
  | cons x links ih =>
    obtain ⟨op, a⟩ := x
    obtain ⟨hop, ha⟩ := h (op, a) (by simp)
    have hlinks : ∀ x ∈ links, x.1 ∈ ops ∧ spelled x.2 := fun x hx => h x (by simp [hx])
    have hread := hitem a ha _ (linksCode_follows code tail
      fun x hx => (hlinks x hx).1)
    obtain ⟨left, htakes, hleft⟩ := link_reads hop (htight a ha _) hread
    obtain ⟨end', hrepeats, hend'⟩ := ih hlinks hleft
    rw [linksCode_cons] at hmid
    have hfront : mid.dropWhile isSpace =
        op.symbol.toList ++ ' ' :: (code a ++ (linksCode code links ++ tail)) :=
      hmid.1.trans (symbol_tight op _)
    refine ⟨end', .more (spaced_takes_iff.mpr ?_) ?_ hrepeats, hend'⟩
    · rw [hfront]
      exact htakes
    · have hmidlen := (List.dropWhile_suffix (l := mid) isSpace).length_le
      have hleftlen := hleft.2
      rw [hfront] at hmidlen
      simp only [List.length_append, List.length_cons] at hmidlen hleftlen ⊢
      omega

/-- A chain is read up to the text behind it, when that text does not go on with the chain. -/
theorem chain_reads
    (hitem : ∀ a, spelled a → ∀ rest,
      (rest = tail ∨ ∃ op ∈ ops, ∃ cs, rest = ' ' :: (op.symbol.toList ++ ' ' :: cs)) →
        Reads item (code a ++ rest) a rest)
    (htight : ∀ a, spelled a → ∀ rest, Tight (code a ++ rest))
    (hend : Refuses (anySymbol ops) (tail.dropWhile isSpace))
    {c : Chain α} (h : c.Spelled ops spelled) :
    Reads (chain item ops) (c.code code ++ tail) c tail := by
  obtain ⟨hfirst, hrest⟩ := h
  have hcode : c.code code ++ tail = code c.first ++ (linksCode code c.rest ++ tail) := by
    simp [Chain.code, linksCode]
  obtain ⟨mid, hmid, htrims⟩ := hitem _ hfirst _ (linksCode_follows code tail
    fun x hx => (hrest x hx).1)
  obtain ⟨left, hrepeats, hleft⟩ := links_repeat hitem htight hend hrest htrims
  rw [hcode]
  exact (Takes.andThen_reads hmid (((hrepeats.reads).trans hleft).map _)).named

end Chains

theorem loose_not_tight {kind : PrimitiveKind} {op : BinaryOp} (h : op ∈ looseOps kind) :
    op ∉ tightOps kind := by
  cases kind <;> revert op <;> decide

theorem operation_dropWhile (op : BinaryOp) (rest : List Char) :
    (' ' :: (op.symbol.toList ++ rest)).dropWhile isSpace = op.symbol.toList ++ rest :=
  symbol_tight op rest

theorem follows_of_loose {kind : PrimitiveKind} {cs rest : List Char}
    (h : rest = ')' :: cs ∨ ∃ op ∈ looseOps kind, ∃ ds, rest = ' ' :: (op.symbol.toList ++ ' ' :: ds)) :
    Follows rest ∧ Refuses (anySymbol (tightOps kind)) (rest.dropWhile isSpace) := by
  rcases h with rfl | ⟨op, hop, ds, rfl⟩
  · exact ⟨.bracket cs, anySymbol_refuses_bracket _ cs⟩
  · refine ⟨.operation op ds, ?_⟩
    rw [operation_dropWhile]
    exact anySymbol_refuses (loose_not_tight hop) _

theorem group_tight {kind : PrimitiveKind} {g : Chain Operand}
    (h : g.Spelled (tightOps kind) (Operand.Spelled kind)) (rest : List Char) :
    Tight (g.code Operand.code ++ rest) := by
  have hfirst := operand_tight h.1 (linksCode Operand.code g.rest ++ rest)
  have hcode : g.code Operand.code ++ rest =
      g.first.code ++ (linksCode Operand.code g.rest ++ rest) := by
    simp [Chain.code, linksCode]
  rw [hcode]
  exact hfirst

/-- A group ends where a loose operation or the closing bracket stands. -/
theorem group_reads {kind : PrimitiveKind} {g : Chain Operand}
    (h : g.Spelled (tightOps kind) (Operand.Spelled kind)) {cs rest : List Char}
    (hrest : rest = ')' :: cs ∨
      ∃ op ∈ looseOps kind, ∃ ds, rest = ' ' :: (op.symbol.toList ++ ' ' :: ds)) :
    Reads (chain (operand kind) (tightOps kind)) (g.code Operand.code ++ rest) g rest := by
  obtain ⟨hfollows, hend⟩ := follows_of_loose hrest
  refine chain_reads (fun o ho more hmore => .of_takes (operand_takes ho ?_))
    (fun o ho => operand_tight ho) hend h
  rcases hmore with rfl | ⟨op, -, ds, rfl⟩
  · exact hfollows
  · exact .operation op ds

/-- A string has one layer of operations, and its operands stand where groups do. -/
theorem string_reads {g : Chain Operand} (h : g.Spelled (tightOps .string) (Operand.Spelled .string))
    {rest : List Char} (hrest : Follows rest) :
    Reads (map (fun o => (⟨o, []⟩ : Chain Operand)) (operand .string))
      (g.code Operand.code ++ rest) g rest := by
  obtain ⟨first, links⟩ := g
  obtain ⟨hfirst, hlinks⟩ := h
  cases links with
  | nil =>
    have hcode : Chain.code Operand.code ⟨first, []⟩ = first.code := by simp [Chain.code]
    rw [hcode]
    exact .of_takes ((operand_takes hfirst hrest).map _)
  | cons x links => exact absurd (hlinks x (by simp)).1 (by simp [tightOps])

theorem groups_reads {kind : PrimitiveKind} {gs : Chain (Chain Operand)}
    (h : gs.Spelled (looseOps kind) (Chain.Spelled (tightOps kind) (Operand.Spelled kind)))
    (cs : List Char) :
    Reads (groups kind) (gs.code (Chain.code Operand.code) ++ ')' :: cs) gs (')' :: cs) := by
  have hend : Refuses (anySymbol (looseOps kind)) ((')' :: cs).dropWhile isSpace) :=
    anySymbol_refuses_bracket _ cs
  by_cases hkind : kind = .string
  · subst hkind
    exact chain_reads (fun g hg rest hrest => string_reads hg (follows_of_loose hrest).1)
      (fun g hg => group_tight hg) hend h
  · have hlayers : groups kind = chain (chain (operand kind) (tightOps kind)) (looseOps kind) := by
      cases kind <;> first | rfl | exact absurd rfl hkind
    rw [hlayers]
    exact chain_reads (fun g hg rest hrest => group_reads hg hrest)
      (fun g hg => group_tight hg) hend h

theorem groups_tight {kind : PrimitiveKind} {gs : Chain (Chain Operand)}
    (h : gs.Spelled (looseOps kind) (Chain.Spelled (tightOps kind) (Operand.Spelled kind)))
    (rest : List Char) : Tight (gs.code (Chain.code Operand.code) ++ rest) := by
  have hfirst := group_tight h.1 (linksCode (Chain.code Operand.code) gs.rest ++ rest)
  have hcode : gs.code (Chain.code Operand.code) ++ rest =
      gs.first.code Operand.code ++ (linksCode (Chain.code Operand.code) gs.rest ++ rest) := by
    simp [Chain.code, linksCode]
  rw [hcode]
  exact hfirst

/-! ## Values and statements -/

theorem computed_takes {kind : PrimitiveKind} {gs : Chain (Chain Operand)}
    (h : (Formula.computed kind gs).Spelled) (rest : List Char) :
    Takes (computed kind) ((Formula.computed kind gs).valueCode ++ rest)
      (.computed kind gs) rest := by
  obtain ⟨left, hgroups, htrims⟩ := groups_reads h rest
  have hclose : Takes (spacedWord ")") left () rest := by
    refine spaced_takes_iff.mpr ?_
    rw [htrims.1]
    exact word_takes [')'] rest
  have hcode : (Formula.computed kind gs).valueCode ++ rest =
      kind.accessor.toList ++ ("(".toList ++ (gs.code (Chain.code Operand.code) ++ ')' :: rest)) := by
    simp [Formula.valueCode, callCode]
  rw [hcode]
  refine ((word_takes _ _).andThen ?_).named
  refine (spacedWord_takes (tight_word rfl _)).andThen ?_
  exact ((groups_tight h _).takes hgroups).andThen (hclose.map _)

theorem computed_refuses {kind : PrimitiveKind} {cs : List Char}
    (h : kind.accessor.toList.isPrefixOf cs = false) : Refuses (computed kind) cs :=
  ((word_refuses h).andThen _).named

theorem value_reads {f : Formula} (h : f.Spelled) (rest : List Char) :
    Reads value (f.valueCode ++ ';' :: rest) f (';' :: rest) := by
  cases f with
  | computed kind gs =>
    refine .of_takes ?_
    have htakes := computed_takes h (';' :: rest)
    cases kind with
    | integer => exact htakes.orElse _
    | decimal => exact (computed_refuses rfl).orElse_takes (htakes.orElse _)
    | boolean =>
      exact (computed_refuses rfl).orElse_takes
        ((computed_refuses rfl).orElse_takes (htakes.orElse _))
    | string =>
      exact (computed_refuses rfl).orElse_takes ((computed_refuses rfl).orElse_takes
        ((computed_refuses rfl).orElse_takes (htakes.orElse _)))
  | reference a =>
    have hend : Refuses (spaced step) (';' :: rest) :=
      (tight_cons rfl _).refuses (step_refuses (by simp))
    obtain ⟨left, htakes, hleft⟩ := (access_reads h hend).map Formula.reference
    refine ⟨left, ?_, hleft⟩
    refine (computed_refuses rfl).orElse_takes ((computed_refuses rfl).orElse_takes ?_)
    refine (computed_refuses rfl).orElse_takes ((computed_refuses rfl).orElse_takes ?_)
    exact ((word_refuses rfl).map _).named.orElse_takes htakes
  | null =>
    refine .of_takes ?_
    refine (computed_refuses rfl).orElse_takes ((computed_refuses rfl).orElse_takes ?_)
    refine (computed_refuses rfl).orElse_takes ((computed_refuses rfl).orElse_takes ?_)
    exact ((word_takes "null".toList _).map _).named.orElse _

theorem value_tight (f : Formula) (rest : List Char) : Tight (f.valueCode ++ rest) := by
  cases f with
  | computed kind gs => cases kind <;> exact tight_cons rfl _
  | reference a => exact tight_cons rfl _
  | null => exact tight_cons rfl _

/-- The grammar takes a well-spelled formula back from its statement. -/
theorem parseFormula_valueCode {f : Formula} (h : f.Spelled) :
    parseFormula ("return ".toList ++ f.valueCode ++ [';']) = .ok f := by
  obtain ⟨left, hvalue, htrims⟩ := value_reads h []
  have hclose : Takes (spacedWord ";") left () [] := by
    refine spaced_takes_iff.mpr ?_
    rw [htrims.1]
    exact word_takes [';'] []
  have hblank : Takes (spaced value) (' ' :: (f.valueCode ++ [';'])) f left := by
    have hfront : (' ' :: (f.valueCode ++ [';'])).dropWhile isSpace = f.valueCode ++ [';'] :=
      value_tight f [';']
    rw [spaced_takes_iff, hfront]
    exact hvalue
  have hend : Takes (spaced endOfText) [] () [] := rfl
  have hcode : "return ".toList ++ f.valueCode ++ [';'] =
      "return".toList ++ ' ' :: (f.valueCode ++ [';']) := by simp
  have hstatement : Takes statement ("return ".toList ++ f.valueCode ++ [';']) f [] := by
    rw [hcode]
    refine ((spacedWord_takes (tight_word rfl _)).andThen ?_).named
    exact hblank.andThen (hclose.andThen (hend.map _))
  exact hstatement.parse

end Target

end Scriptorium

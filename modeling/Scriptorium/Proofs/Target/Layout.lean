import Scriptorium.Proofs.Grammar.Inversion
import Scriptorium.Proofs.Target.Statements

/-!
# Accepted target code is a layout of its formula

Target code is a sequence of tokens with blanks around them: fixed words,
brackets, symbols, quoted texts and numerals. `Laid` says that a text is a layout
of some tokens, without reference to the grammar. Every text that the grammar
accepts is a layout of the tokens of the formula that it yields, and that formula
is spelled well: its operands are of its kind, and each layer has only the
operations of the kind.
-/

namespace Scriptorium

/-- The tokens of a step. -/
def WrittenStep.tokens : WrittenStep → List (List Char)
  | .field name => [".".toList, "field".toList, "(".toList, quoteText name, ")".toList]
  | .index digits => [".".toList, "at".toList, "(".toList, digits, ")".toList]

/-- The tokens of an access. -/
def WrittenAccess.tokens (a : WrittenAccess) : List (List Char) :=
  ["var".toList, "(".toList, quoteText a.head, ")".toList] ++ a.steps.flatMap WrittenStep.tokens

/-- The tokens of an operand. A literal is one token. -/
def Operand.tokens : Operand → List (List Char)
  | .read access kind => access.tokens ++ [".".toList, kind.accessor.toList, "(".toList, ")".toList]
  | literal => [literal.code]

/-- The tokens of a chain from those of its items. -/
def Chain.tokens {α : Type} (item : α → List (List Char)) (c : Chain α) : List (List Char) :=
  item c.first ++ c.rest.flatMap fun x => x.1.symbol.toList :: item x.2

/-- The tokens of the value that a statement returns. -/
def Formula.valueTokens : Formula → List (List Char)
  | .computed kind groups => [kind.accessor.toList, "(".toList] ++
      groups.tokens (Chain.tokens Operand.tokens) ++ [")".toList]
  | .reference access => access.tokens
  | .null => ["null".toList]

/-- The tokens of a statement. -/
def Formula.tokens (f : Formula) : List (List Char) :=
  "return".toList :: f.valueTokens ++ [";".toList]

namespace Target

open Grammar Grammar.Rule Text

/-- The text is these tokens one after the other, with blanks around them, up to the rest. -/
inductive Laid : List (List Char) → List Char → List Char → Prop
  | done (rest : List Char) : Laid [] rest rest
  | token (w : List Char) {ws : List (List Char)} {cs rest : List Char} (h : Laid ws cs rest) :
    Laid (w :: ws) (w ++ cs) rest
  | blank {c : Char} {ws : List (List Char)} {cs rest : List Char} (hc : isSpace c = true)
    (h : Laid ws cs rest) : Laid ws (c :: cs) rest

variable {α β : Type} {ws vs : List (List Char)} {cs mid rest : List Char}

theorem Laid.append (h : Laid ws cs mid) (k : Laid vs mid rest) : Laid (ws ++ vs) cs rest := by
  induction h with
  | done => exact k
  | token w _ ih => exact .token w (ih k)
  | blank hc _ ih => exact .blank hc (ih k)

theorem Laid.of_dropWhile (h : Laid ws (cs.dropWhile isSpace) rest) : Laid ws cs rest := by
  induction cs with
  | nil => exact h
  | cons c cs ih =>
    rw [List.dropWhile_cons] at h
    split at h
    · next hc => exact .blank hc (ih h)
    · exact h

theorem laid_token (w rest : List Char) : Laid [w] (w ++ rest) rest := .token w (.done rest)

theorem laid_word {w : List Char} {u : Unit} (h : Takes (word w) cs u rest) : Laid [w] cs rest := by
  rw [takes_word_iff.mp h]
  exact laid_token w rest

theorem laid_spacedWord {w : String} {u : Unit} (h : Takes (spacedWord w) cs u rest) :
    Laid [w.toList] cs rest := .of_dropWhile (laid_word (spaced_takes_iff.mp h))

/-- What the rule takes is good, and its tokens are laid out in the text. -/
def Writes (p : Rule α) (good : α → Prop) (tokens : α → List (List Char)) : Prop :=
  ∀ ⦃cs a rest⦄, Takes p cs a rest → good a ∧ Laid (tokens a) cs rest

section Combinators

variable {p q : Rule α} {good : α → Prop} {tokens : α → List (List Char)}

theorem Writes.spaced (h : Writes p good tokens) : Writes (spaced p) good tokens := by
  intro cs a rest ha
  obtain ⟨hgood, hlaid⟩ := h (spaced_takes_iff.mp ha)
  exact ⟨hgood, .of_dropWhile hlaid⟩

theorem Writes.named (h : Writes p good tokens) : Writes (named p) good tokens :=
  fun _ _ _ ha => h (takes_named_iff.mp ha)

theorem Writes.orElse (h : Writes p good tokens) (k : Writes q good tokens) :
    Writes (orElse p q) good tokens := by
  intro cs a rest ha
  rcases ha.cases_orElse with hp | hq
  · exact h hp
  · exact k hq

theorem Writes.map {f : α → β} {good' : β → Prop} {tokens' : β → List (List Char)}
    (h : Writes p good tokens) (hgood : ∀ a, good a → good' (f a))
    (htokens : ∀ a, tokens' (f a) = tokens a) : Writes (Rule.map f p) good' tokens' := by
  intro cs b rest hb
  obtain ⟨a, ha, rfl⟩ := takes_map_iff.mp hb
  obtain ⟨ha, hlaid⟩ := h ha
  rw [htokens]
  exact ⟨hgood a ha, hlaid⟩

theorem Writes.many (h : Writes p good tokens) :
    Writes (many p) (fun as => ∀ a ∈ as, good a) (List.flatMap tokens) := by
  intro cs as rest has
  induction as generalizing cs with
  | nil =>
    rcases has.cases_many with ⟨-, rfl⟩ | ⟨a, later, mid, hcons, -⟩
    · exact ⟨nofun, .done rest⟩
    · cases hcons
  | cons a as ih =>
    rcases has.cases_many with ⟨hnil, -⟩ | ⟨_, _, mid, hcons, ha, -, hmany⟩
    · cases hnil
    · cases hcons
      obtain ⟨hgood, hlaid⟩ := h ha
      obtain ⟨hgoods, hlaids⟩ := ih hmany
      exact ⟨List.forall_mem_cons.mpr ⟨hgood, hgoods⟩, hlaid.append hlaids⟩

theorem Writes.spacedMany (h : Writes p good tokens) :
    Writes (spacedMany p) (fun as => ∀ a ∈ as, good a) (List.flatMap tokens) := by
  intro cs as rest has
  rcases has.cases_orElse with hsome | hnone
  · obtain ⟨a, mid, ha, hmore⟩ := takes_andThen_iff.mp hsome
    obtain ⟨later, hlater, rfl⟩ := takes_map_iff.mp hmore
    obtain ⟨hgood, hlaid⟩ := h ha
    obtain ⟨hgoods, hlaids⟩ := h.spaced.many hlater
    exact ⟨List.forall_mem_cons.mpr ⟨hgood, hgoods⟩, hlaid.append hlaids⟩
  · obtain ⟨rfl, rfl⟩ := takes_accept_iff.mp hnone
    exact ⟨nofun, .done rest⟩

end Combinators

/-! ## Quoted texts and numerals -/

theorem cutContent_eq (cs : List Char) :
    cs = quotedBody (cutContent cs).1 ++ (cutContent cs).2 := by
  fun_induction cutContent cs with
  | case1 cs content rest hcut ih =>
    rw [hcut] at ih
    simpa [quotedBody] using ih
  | case2 cs content rest hcut ih =>
    rw [hcut] at ih
    simpa [quotedBody] using ih
  | case3 c cs => simp [quotedBody]
  | case4 c cs _ _ hc content rest hcut ih =>
    rw [hcut] at ih
    have hplain : ¬(c = '"' ∨ c = '\\') := by simpa using hc
    simpa [quotedBody, hplain] using ih
  | case5 => rfl

theorem quoted_writes : Writes quoted (fun _ => True) fun content => [quoteText content] := by
  intro cs content rest h
  obtain ⟨_, cs₁, hopen, h⟩ := takes_andThen_iff.mp (takes_named_iff.mp h)
  obtain ⟨_, cs₂, hcut, h⟩ := takes_andThen_iff.mp h
  obtain ⟨_, hclose, rfl⟩ := takes_map_iff.mp h
  obtain rfl := takes_word_iff.mp hopen
  obtain rfl := takes_word_iff.mp hclose
  have hbody := cutContent_eq cs₁
  rw [Option.some.inj hcut] at hbody
  have hquoted : ['"'] ++ cs₁ = quoteText content ++ rest := by
    rw [hbody]
    simp [quoteText, quotedBody]
  rw [hquoted]
  exact ⟨trivial, laid_token _ _⟩

theorem isDigits_takeWhile {cs : List Char} (h : ¬(cs.takeWhile Char.isDigit).isEmpty = true) :
    isDigits (cs.takeWhile Char.isDigit) = true := by
  rw [isDigits, Bool.and_eq_true]
  exact ⟨by simpa using h, List.all_takeWhile⟩

theorem cutInteger_eq_some {cs numeral rest : List Char}
    (h : cutInteger cs = some (numeral, rest)) :
    isInteger numeral = true ∧ cs = numeral ++ rest := by
  unfold cutInteger at h
  split at h
  next sign body hsign =>
  have hcs : (sign = [] ∨ sign = ['-']) ∧ cs = sign ++ body := by
    split at hsign
    · cases hsign
      exact ⟨.inr rfl, rfl⟩
    · cases hsign
      exact ⟨.inl rfl, rfl⟩
  dsimp only at h
  split at h
  · cases h
  · next hne =>
    cases h
    refine ⟨isInteger_append hcs.1 (isDigits_takeWhile hne), ?_⟩
    rw [List.append_assoc, List.takeWhile_append_dropWhile]
    exact hcs.2

theorem cutDecimal_eq_some {cs numeral rest : List Char}
    (h : cutDecimal cs = some (numeral, rest)) :
    isDecimal numeral = true ∧ cs = numeral ++ rest := by
  unfold cutDecimal at h
  split at h
  next sign body hsign =>
  have hcs : (sign = [] ∨ sign = ['-']) ∧ cs = sign ++ body := by
    split at hsign
    · cases hsign
      exact ⟨.inr rfl, rfl⟩
    · cases hsign
      exact ⟨.inl rfl, rfl⟩
  dsimp only at h
  split at h
  · next fraction hpoint =>
    split at h
    · cases h
    · next hne =>
      cases h
      have hwhole : ∀ c ∈ body.takeWhile Char.isDigit, c.isDigit = true :=
        List.all_eq_true.mp List.all_takeWhile
      refine ⟨(isDecimal_append hcs.1 hwhole (isDigits_takeWhile hne)).2, ?_⟩
      have hbody := List.takeWhile_append_dropWhile (p := Char.isDigit) (l := body)
      rw [hpoint] at hbody
      rw [hcs.2]
      simp [List.append_assoc, List.takeWhile_append_dropWhile, hbody]
  · cases h

/-- A numeral that is cut off the front of a text is one token. -/
theorem cut_writes {f : List Char → Option (List Char × List Char)} {good : List Char → Prop}
    (h : ∀ {cs numeral rest}, f cs = some (numeral, rest) → good numeral ∧ cs = numeral ++ rest) :
    Writes (named (cut f)) good fun numeral => [numeral] := by
  refine Writes.named ?_
  intro cs numeral rest hcut
  obtain ⟨hgood, rfl⟩ := h hcut
  exact ⟨hgood, laid_token numeral rest⟩

theorem digits_writes : Writes digits (fun ds => isDigits ds = true) fun ds => [ds] := by
  refine cut_writes fun {cs ds rest} h => ?_
  dsimp only at h
  split at h
  · cases h
  · next hne =>
    cases h
    exact ⟨isDigits_takeWhile hne, List.takeWhile_append_dropWhile.symm⟩

theorem truth_writes : Writes truth (fun _ => True) fun b => [(Operand.boolean b).code] := by
  refine Writes.named (Writes.orElse ?_ ?_)
  all_goals
    intro cs b rest h
    obtain ⟨_, hword, rfl⟩ := takes_map_iff.mp h
    exact ⟨trivial, laid_word hword⟩

theorem literal_writes (kind : PrimitiveKind) :
    Writes (literal kind) (Operand.Spelled kind) Operand.tokens := by
  cases kind with
  | integer => exact (cut_writes cutInteger_eq_some).map (fun _ h => ⟨rfl, h⟩) fun _ => rfl
  | decimal => exact (cut_writes cutDecimal_eq_some).map (fun _ h => ⟨rfl, h⟩) fun _ => rfl
  | boolean => exact truth_writes.map (fun _ _ => rfl) fun _ => rfl
  | string => exact quoted_writes.map (fun _ _ => rfl) fun _ => rfl

/-! ## Accesses and operands -/

theorem stepRule_writes {w : String} {argument : Rule α} {good : α → Prop}
    {tokens : α → List (List Char)} (h : Writes argument good tokens) :
    Writes (stepRule w argument) good fun a =>
      [".".toList, w.toList, "(".toList] ++ tokens a ++ [")".toList] := by
  intro cs a rest ha
  obtain ⟨_, cs₁, hpoint, ha⟩ := takes_andThen_iff.mp (takes_named_iff.mp ha)
  obtain ⟨_, cs₂, hw, ha⟩ := takes_andThen_iff.mp ha
  obtain ⟨_, cs₃, hopen, ha⟩ := takes_andThen_iff.mp ha
  obtain ⟨a, cs₄, hargument, ha⟩ := takes_andThen_iff.mp ha
  obtain ⟨_, hclose, rfl⟩ := takes_map_iff.mp ha
  obtain ⟨hgood, hlaid⟩ := h.spaced hargument
  have hfront := (laid_word hpoint).append ((laid_spacedWord hw).append (laid_spacedWord hopen))
  exact ⟨hgood, (hfront.append hlaid).append (laid_spacedWord hclose)⟩

theorem step_writes : Writes step WrittenStep.Spelled WrittenStep.tokens := by
  have hfield : Writes (map WrittenStep.field (stepRule "field" quoted)) WrittenStep.Spelled
      WrittenStep.tokens := (stepRule_writes quoted_writes).map (fun _ _ => trivial) fun _ => rfl
  have hindex : Writes (map WrittenStep.index (stepRule "at" digits)) WrittenStep.Spelled
      WrittenStep.tokens := (stepRule_writes digits_writes).map (fun _ h => h) fun _ => rfl
  exact hfield.orElse hindex

theorem access_writes : Writes access WrittenAccess.Spelled WrittenAccess.tokens := by
  intro cs a rest ha
  obtain ⟨_, cs₁, hvar, ha⟩ := takes_andThen_iff.mp (takes_named_iff.mp ha)
  obtain ⟨_, cs₂, hopen, ha⟩ := takes_andThen_iff.mp ha
  obtain ⟨head, cs₃, hhead, ha⟩ := takes_andThen_iff.mp ha
  obtain ⟨_, cs₄, hclose, ha⟩ := takes_andThen_iff.mp ha
  obtain ⟨steps, hsteps, rfl⟩ := takes_map_iff.mp ha
  obtain ⟨hgood, hlaid⟩ := step_writes.spacedMany.spaced hsteps
  have hfront := (laid_word hvar).append ((laid_spacedWord hopen).append
    ((quoted_writes.spaced hhead).2.append (laid_spacedWord hclose)))
  exact ⟨hgood, hfront.append hlaid⟩

theorem read_writes (kind : PrimitiveKind) :
    Writes (read kind) (Operand.Spelled kind) Operand.tokens := by
  intro cs o rest ho
  obtain ⟨a, cs₁, ha, ho⟩ := takes_andThen_iff.mp (takes_named_iff.mp ho)
  obtain ⟨_, cs₂, hpoint, ho⟩ := takes_andThen_iff.mp ho
  obtain ⟨_, cs₃, hkind, ho⟩ := takes_andThen_iff.mp ho
  obtain ⟨_, cs₄, hopen, ho⟩ := takes_andThen_iff.mp ho
  obtain ⟨_, hclose, rfl⟩ := takes_map_iff.mp ho
  obtain ⟨hgood, hlaid⟩ := access_writes ha
  have haccessor := (laid_spacedWord hpoint).append ((laid_spacedWord hkind).append
    ((laid_spacedWord hopen).append (laid_spacedWord hclose)))
  exact ⟨⟨rfl, hgood⟩, hlaid.append haccessor⟩

theorem operand_writes (kind : PrimitiveKind) :
    Writes (operand kind) (Operand.Spelled kind) Operand.tokens :=
  (read_writes kind).orElse (literal_writes kind)

/-! ## Chains -/

theorem anySymbol_writes (ops : List BinaryOp) :
    Writes (anySymbol ops) (fun op => op ∈ ops) fun op => [op.symbol.toList] := by
  induction ops with
  | nil => nofun
  | cons op ops ih =>
    refine Writes.orElse ?_ fun cs other rest h => ?_
    · refine Writes.named ?_
      intro cs other rest h
      obtain ⟨_, hword, rfl⟩ := takes_map_iff.mp h
      exact ⟨List.mem_cons_self, laid_word hword⟩
    · obtain ⟨hmem, hlaid⟩ := ih h
      exact ⟨List.mem_cons_of_mem _ hmem, hlaid⟩

/-- Between the items of a chain stand its operations. -/
theorem chain_writes {item : Rule α} {good : α → Prop} {tokens : α → List (List Char)}
    (h : Writes item good tokens) (ops : List BinaryOp) :
    Writes (chain item ops) (Chain.Spelled ops good) (Chain.tokens tokens) := by
  have hlink : Writes (link item ops) (fun x => x.1 ∈ ops ∧ good x.2)
      fun x => x.1.symbol.toList :: tokens x.2 := by
    intro cs x rest hx
    obtain ⟨op, cs₁, hop, hx⟩ := takes_andThen_iff.mp hx
    obtain ⟨a, ha, rfl⟩ := takes_map_iff.mp hx
    obtain ⟨hmem, hsymbol⟩ := anySymbol_writes ops hop
    obtain ⟨hgood, hlaid⟩ := h.spaced ha
    exact ⟨⟨hmem, hgood⟩, hsymbol.append hlaid⟩
  intro cs c rest hc
  obtain ⟨first, cs₁, hfirst, hc⟩ := takes_andThen_iff.mp (takes_named_iff.mp hc)
  obtain ⟨links, hlinks, rfl⟩ := takes_map_iff.mp hc
  obtain ⟨hgood, hlaid⟩ := h hfirst
  obtain ⟨hgoods, hlaids⟩ := hlink.spacedMany.spaced hlinks
  exact ⟨⟨hgood, hgoods⟩, hlaid.append hlaids⟩

theorem groups_writes (kind : PrimitiveKind) :
    Writes (groups kind)
      (Chain.Spelled (looseOps kind) (Chain.Spelled (tightOps kind) (Operand.Spelled kind)))
      (Chain.tokens (Chain.tokens Operand.tokens)) := by
  have hlayers (kind : PrimitiveKind) :=
    chain_writes (chain_writes (operand_writes kind) (tightOps kind)) (looseOps kind)
  cases kind with
  | integer => exact hlayers .integer
  | decimal => exact hlayers .decimal
  | boolean => exact hlayers .boolean
  | string =>
    refine chain_writes ?_ _
    exact (operand_writes .string).map (fun o ho => ⟨ho, nofun⟩) fun o => List.append_nil _

/-! ## Values and statements -/

theorem computed_writes (kind : PrimitiveKind) :
    Writes (computed kind) Formula.Spelled Formula.valueTokens := by
  intro cs f rest hf
  obtain ⟨_, cs₁, hkind, hf⟩ := takes_andThen_iff.mp (takes_named_iff.mp hf)
  obtain ⟨_, cs₂, hopen, hf⟩ := takes_andThen_iff.mp hf
  obtain ⟨gs, cs₃, hgs, hf⟩ := takes_andThen_iff.mp hf
  obtain ⟨_, hclose, rfl⟩ := takes_map_iff.mp hf
  obtain ⟨hgood, hlaid⟩ := (groups_writes kind).spaced hgs
  have hfront := (laid_word hkind).append (laid_spacedWord hopen)
  exact ⟨hgood, (hfront.append hlaid).append (laid_spacedWord hclose)⟩

theorem value_writes : Writes value Formula.Spelled Formula.valueTokens := by
  have hnull : Writes (named (map (fun _ => Formula.null) (word "null".toList))) Formula.Spelled
      Formula.valueTokens := by
    refine Writes.named ?_
    intro cs f rest hf
    obtain ⟨_, hword, rfl⟩ := takes_map_iff.mp hf
    exact ⟨trivial, laid_word hword⟩
  have hreference : Writes (map Formula.reference access) Formula.Spelled Formula.valueTokens :=
    access_writes.map (fun _ h => h) fun _ => rfl
  exact (computed_writes .integer).orElse <| (computed_writes .decimal).orElse <|
    (computed_writes .boolean).orElse <| (computed_writes .string).orElse <|
      hnull.orElse hreference

/-- A text that the grammar accepts is a layout of the tokens of a well-spelled formula. -/
theorem parseFormula_laid {text : List Char} {f : Formula} (h : parseFormula text = .ok f) :
    f.Spelled ∧ Laid f.tokens text [] := by
  have htakes : ∃ rest, Takes statement text f rest := by
    unfold parseFormula parse at h
    split at h
    · next g rest hg =>
      cases h
      exact ⟨rest, by rw [Takes, hg]⟩
    · cases h
  obtain ⟨rest, hf⟩ := htakes
  obtain ⟨_, cs₁, hreturn, hf⟩ := takes_andThen_iff.mp (takes_named_iff.mp hf)
  obtain ⟨f, cs₂, hvalue, hf⟩ := takes_andThen_iff.mp hf
  obtain ⟨_, cs₃, hend, hf⟩ := takes_andThen_iff.mp hf
  obtain ⟨_, hclosed, rfl⟩ := takes_map_iff.mp hf
  obtain ⟨hgood, hlaid⟩ := value_writes.spaced hvalue
  have hnothing : Laid [] cs₃ [] := by
    refine .of_dropWhile ?_
    have hempty := takes_named_iff.mp (spaced_takes_iff.mp hclosed)
    unfold Takes at hempty
    dsimp only at hempty
    split at hempty
    · next hnil =>
      rw [List.isEmpty_iff.mp hnil]
      exact .done []
    · cases hempty
  have htokens := ((laid_spacedWord hreturn).append hlaid).append (laid_spacedWord hend)
  refine ⟨hgood, ?_⟩
  have hall := htokens.append hnothing
  rwa [List.append_nil] at hall

end Target

end Scriptorium

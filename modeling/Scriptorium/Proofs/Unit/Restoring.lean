import Scriptorium.Proofs.Unit.Loading
import Scriptorium.Proofs.Unit.Records
import Scriptorium.Proofs.Unit.RoundTrip

/-!
# Compiled units are restored

The body of a unit that a compilation returns has literals of primitive types,
element numbers that are words, and names of two sorts: those of its own
package, and those of registered record types. So a unit that is stored under a
name of its kind is restored to the very body that was compiled, unless that is
nested too deeply or holds a decimal that is not finite.
-/

namespace Scriptorium

open Json

/-! ### What is in the trees of target code -/

theorem WrittenAccess.words {w : WrittenAccess} {a : Access} (h : w.access = .ok a) :
    ∀ s ∈ a.steps, s.IsWord := by
  unfold WrittenAccess.access at h
  cases hsteps : w.steps.mapM WrittenStep.step with
  | error cause =>
    rw [hsteps] at h
    cases h
  | ok steps =>
    rw [hsteps] at h
    cases h
    intro s hs
    obtain ⟨written, -, hwritten⟩ := (Compile.mapM_eq_ok hsteps).2 s hs
    cases written with
    | field name =>
      cases hwritten
      exact trivial
    | index digits =>
      unfold WrittenStep.step at hwritten
      dsimp only at hwritten
      split at hwritten
      · next hbound =>
        cases hwritten
        exact hbound
      · cases hwritten

theorem Operand.node_words {o : Operand} {n : Node} (h : o.node = .ok n) :
    ∀ a ∈ n.accesses, ∀ s ∈ a.steps, s.IsWord := by
  cases o with
  | integer numeral =>
    rw [Operand.node] at h
    split at h
    · cases h
      exact List.forall_mem_nil _
    · cases h
  | decimal numeral =>
    cases h
    exact List.forall_mem_nil _
  | boolean b =>
    cases h
    exact List.forall_mem_nil _
  | string content =>
    cases h
    exact List.forall_mem_nil _
  | read access kind =>
    obtain ⟨a, haccess, rfl⟩ := read_node_eq_ok.mp h
    exact List.forall_mem_singleton.mpr (WrittenAccess.words haccess)

/-- The element numbers of target code are words. -/
theorem Target.parseTarget_words {text : List Char} {e : TargetExpr}
    (h : parseTarget text = .ok e) : ∀ a ∈ e.root.accesses, ∀ s ∈ a.steps, s.IsWord := by
  obtain ⟨f, -, hf⟩ := parseTarget_eq_ok.mp h
  apply Formula.expr_induction (P := fun n => ∀ a ∈ n.accesses, ∀ s ∈ a.steps, s.IsWord) _ _ _ _ hf
  · exact fun _ _ _ hl hr => List.forall_mem_append.mpr ⟨hl, hr⟩
  · exact fun _ _ ho => Operand.node_words ho
  · exact fun _ _ ha => List.forall_mem_singleton.mpr (WrittenAccess.words ha)
  · exact List.forall_mem_nil _

namespace Node

/-- A literal of a primitive type holds no record. -/
theorem Primitive.typeName? {n : Node} (h : n.Primitive) : ∀ v ∈ n.values, v.typeName? = none := by
  induction n with
  | literal v =>
    cases v with
    | null => cases h
    | array items => cases h
    | record type fields => cases h
    | _ => exact List.forall_mem_singleton.mpr rfl
  | binary op lhs rhs ihl ihr => exact List.forall_mem_append.mpr ⟨ihl h.1, ihr h.2⟩
  | _ => exact List.forall_mem_nil _

/-- A tree is what its document denotes when each of its decimals is what its numeral denotes. -/
theorem reread_eq {n : Node} (h : ∀ d, Value.decimal d ∈ n.values → d.reread = d) :
    n.reread = n := by
  induction n with
  | literal v =>
    cases v with
    | decimal d => rw [reread, h d List.mem_cons_self]
    | _ => rfl
  | binary op lhs rhs ihl ihr =>
    rw [reread, ihl fun d hd => h d (List.mem_append_left _ hd),
      ihr fun d hd => h d (List.mem_append_right _ hd)]
  | _ => rfl

end Node

/-- The numeral of the decimal denotes it in a document, if the decimal is finite. -/
def Decimal.Rereads (d : Decimal) : Prop :=
  d.isFinite = true → (ofDecimal d).decimal? = some d

instance (d : Decimal) : Decidable d.Rereads :=
  inferInstanceAs (Decidable (d.isFinite = true → (ofDecimal d).decimal? = some d))

/-- What is not finite has no numeral. -/
theorem Decimal.Rereads.reread {d : Decimal} (h : d.Rereads) : d.reread = d := by
  cases d with
  | finite negative rank => rw [Decimal.reread, h rfl, Option.getD_some]
  | _ => rfl

theorem UnitBody.reread_eq {body : UnitBody} (h : ∀ d ∈ body.decimals, d.reread = d) :
    body.reread = body := by
  cases body with
  | expression e =>
    have hroot : e.root.reread = e.root := Node.reread_eq fun d hd => h d (mem_decimals hd)
    rw [reread, TargetExpr.reread, hroot]
  | _ => rfl

/-! ### Names in scripts and record types -/

mutual

theorem Instruction.names_declaredInputs (i : Instruction) :
    ∀ p ∈ i.declaredInputs, ∀ n ∈ p.type.names, n ∈ i.names := by
  match i with
  | .declareInput name type => exact List.forall_mem_singleton.mpr fun _ hn => hn
  | .declareLocal name type init => exact List.forall_mem_nil _
  | .setLocal target value => exact List.forall_mem_nil _
  | .branch condition thenBranch elseBranch =>
    intro p hp n hn
    rw [Instruction.names]
    rcases List.mem_append.mp hp with hp | hp
    · apply List.mem_append_left
      exact List.mem_append_right _ (Instruction.names_allDeclaredInputs thenBranch p hp n hn)
    · exact List.mem_append_right _ (Instruction.names_allDeclaredInputs elseBranch p hp n hn)

theorem Instruction.names_allDeclaredInputs (is : List Instruction) :
    ∀ p ∈ Instruction.allDeclaredInputs is, ∀ n ∈ p.type.names, n ∈ Instruction.namesItems is := by
  match is with
  | [] => exact List.forall_mem_nil _
  | i :: rest =>
    intro p hp n hn
    rcases List.mem_append.mp hp with hp | hp
    · exact List.mem_append_left _ (Instruction.names_declaredInputs i p hp n hn)
    · exact List.mem_append_right _ (Instruction.names_allDeclaredInputs rest p hp n hn)

end

theorem SemanticType.readable_of_names {t : SemanticType} (h : ∀ n ∈ t.names, n.ParsesBack) :
    t.Readable := by
  cases t with
  | record name => exact (h name List.mem_cons_self).readable
  | _ => exact trivial

mutual

theorem Instruction.readable_of_names (i : Instruction) (h : ∀ n ∈ i.names, n.ParsesBack) :
    i.Readable := by
  match i with
  | .declareInput name type => exact SemanticType.readable_of_names h
  | .declareLocal name type init =>
    rw [Instruction.names, List.forall_mem_append] at h
    refine ⟨SemanticType.readable_of_names h.1, fun ref href => ?_⟩
    exact (h.2 ref.name (List.mem_map_of_mem (Option.mem_toList.mpr href))).readable
  | .setLocal target value => exact (h value.name List.mem_cons_self).readable
  | .branch condition thenBranch elseBranch =>
    rw [Instruction.names, List.forall_mem_append, List.forall_mem_append] at h
    simp only [Condition.names, List.forall_mem_cons] at h
    obtain ⟨⟨⟨hleft, hright, -⟩, hthen⟩, helse⟩ := h
    exact ⟨hleft.readable, hright.readable, Instruction.readableItems_of_names thenBranch hthen,
      Instruction.readableItems_of_names elseBranch helse⟩

theorem Instruction.readableItems_of_names (is : List Instruction)
    (h : ∀ n ∈ Instruction.namesItems is, n.ParsesBack) : Instruction.ReadableItems is := by
  match is with
  | [] => exact trivial
  | i :: rest =>
    rw [Instruction.namesItems, List.forall_mem_append] at h
    exact ⟨Instruction.readable_of_names i h.1, Instruction.readableItems_of_names rest h.2⟩

end

/-- The name is one that a person gave, and a record type is registered under it. -/
def Registry.Lists (types : Registry) (n : QualifiedName) : Prop :=
  n.Plain ∧ ∃ t, types n = .ok (some t)

/-- Record types are registered under well-formed names alone. -/
def Registry.WellFormed (types : Registry) : Prop :=
  ∀ name t, types name = .ok (some t) → name.isWellFormed = true

theorem SemanticType.Known.lists {types : Registry} {t : SemanticType} (h : t.Known types)
    (hplain : ∀ n ∈ t.names, n.Plain) : ∀ n ∈ t.names, types.Lists n := by
  cases t with
  | record name =>
    exact List.forall_mem_singleton.mpr ⟨hplain name List.mem_cons_self, h⟩
  | _ => exact List.forall_mem_nil _

/-- The names in the instructions of a script are those of its units and of registered record
types. -/
theorem ScriptCheck.Matches.names {types : Registry} {units : List PendingExpression}
    {t t' : VariableTable} {ss : List Statement} {is : List Instruction}
    (h : Matches types units t ss is t') :
    ∀ n ∈ Instruction.namesItems is, (∃ e ∈ units, e.name = n) ∨ types.Lists n := by
  have htype {typeName : String} (hknown : (SemanticType.ofTypeName typeName).Known types) :
      ∀ n ∈ (SemanticType.ofTypeName typeName).names,
        (∃ e ∈ units, e.name = n) ∨ types.Lists n :=
    fun n hn => .inr (hknown.lists (SemanticType.plain_ofTypeName typeName) n hn)
  have hunit {t : VariableTable} {text : String} {ref : ExprRef} {kind : ResultKind}
      (hsite : Site types units t text ref kind) :
      (∃ e ∈ units, e.name = ref.name) ∨ types.Lists ref.name := by
    obtain ⟨e, he, -, rfl, -⟩ := hsite
    exact .inl ⟨e, he, rfl⟩
  induction h with
  | nil => exact List.forall_mem_nil _
  | declareInput _ hknown _ _ ih => exact List.forall_mem_append.mpr ⟨htype hknown, ih⟩
  | declareLocal _ hknown _ _ ih =>
    refine List.forall_mem_append.mpr ⟨?_, ih⟩
    exact List.forall_mem_append.mpr ⟨htype hknown, List.forall_mem_nil _⟩
  | initLocal _ hknown _ hsite _ _ ih =>
    refine List.forall_mem_append.mpr ⟨?_, ih⟩
    exact List.forall_mem_append.mpr
      ⟨htype hknown, List.forall_mem_singleton.mpr (hunit hsite)⟩
  | setLocal _ hsite _ _ ih =>
    exact List.forall_mem_cons.mpr ⟨hunit hsite, ih⟩
  | branch hcondition _ _ _ ih₁ ih₂ ih =>
    obtain ⟨left, right, hleft, hright, -⟩ := hcondition.sites
    refine List.forall_mem_append.mpr ⟨?_, ih⟩
    rw [Instruction.names, List.forall_mem_append, List.forall_mem_append]
    refine ⟨⟨?_, ih₁⟩, ih₂⟩
    exact List.forall_mem_cons.mpr ⟨hunit hleft, List.forall_mem_singleton.mpr (hunit hright)⟩

/-! ### Bodies that are computed -/

namespace Compile

/-- The unit is one of those that a compilation returns where the registry answers. -/
inductive Returned (types : Registry) : CompiledUnit → Prop
  | target {name : QualifiedName} {text : String} {u : CompiledUnit}
    (h : Compile.target name text = .ok u) : Returned types u
  | expression {name : QualifiedName} {source : String} {t : VariableTable} {u : CompiledUnit}
    (h : (Compile.expression name source t).run types = .ok u) : Returned types u
  | script {name : QualifiedName} {body : String} {c : ScriptCompilation} {u : CompiledUnit}
    (h : (Compile.script name body).run types = .ok c) (hu : u ∈ c.units) : Returned types u
  | recordType {name : QualifiedName} {spec : String} {u : CompiledUnit}
    (h : (Compile.recordType name spec).run types = .ok u) : Returned types u

/-- A compilation returns the unit, and the body is what it computed for that unit: the tree of
target code, the program of checked statements, or the fields of a record type. -/
inductive Yields (types : Registry) : CompiledUnit → UnitBody → Prop
  | target {name : QualifiedName} {text : String} {u : CompiledUnit} {e : TargetExpr}
    (h : Compile.target name text = .ok u)
    (htree : Target.parseTarget text.toList = .ok e) : Yields types u (.expression e)
  | expression {name : QualifiedName} {source : String} {t : VariableTable} {u : CompiledUnit}
    {code : TargetCode} {e : TargetExpr}
    (h : (Compile.expression name source t).run types = .ok u)
    (hcode : (Expression.translate t source).run types = .ok code)
    (htree : Target.parseTarget code.text.toList = .ok e) : Yields types u (.expression e)
  | script {name : QualifiedName} {body : String} {c : ScriptCompilation}
    {statements : List Statement} {checked : CheckedScript}
    (h : (Compile.script name body).run types = .ok c)
    (hstatements : Script.parseScript body.toList = .ok statements)
    (hchecked : (ScriptCheck.check name statements).run types = .ok checked) :
    Yields types c.script (.script checked.program)
  | part {name : QualifiedName} {body : String} {c : ScriptCompilation}
    {statements : List Statement} {checked : CheckedScript} {x : PendingExpression}
    {u : CompiledUnit} {e : TargetExpr}
    (h : (Compile.script name body).run types = .ok c)
    (hstatements : Script.parseScript body.toList = .ok statements)
    (hchecked : (ScriptCheck.check name statements).run types = .ok checked)
    (hx : x ∈ checked.expressions)
    (htree : Target.parseTarget x.sentence.targetCode.text.toList = .ok e)
    (hu : u ∈ c.expressions) (hname : u.name = x.name) : Yields types u (.expression e)
  | recordType {name : QualifiedName} {spec : String} {u : CompiledUnit}
    {defined : List FieldDefinition}
    (h : (Compile.recordType name spec).run types = .ok u)
    (hfields : (fields name [] (fragments spec)).run types = .ok defined) :
    Yields types u (.record ⟨name, defined⟩)

theorem target_eq_ok {name : QualifiedName} {text : String} {u : CompiledUnit}
    (h : Compile.target name text = .ok u) :
    ∃ e, Target.parseTarget text.toList = .ok e ∧ u = .ofBody name (.expression e) none none := by
  unfold Compile.target checkName at h
  by_cases hname : name.isWellFormed = true
  · rw [if_pos hname] at h
    exact targetUnit_eq_ok h
  · rw [if_neg hname] at h
    cases h

theorem wellFormed_of_recordType {types : Registry} {name : QualifiedName} {spec : String}
    {u : CompiledUnit} (h : (Compile.recordType name spec).run types = .ok u) :
    name.isWellFormed = true := by
  unfold Compile.recordType checkName at h
  by_cases hname : name.isWellFormed = true
  · exact hname
  · rw [if_neg hname] at h
    cases h

/-- The parts of a script are those that reading and checking it gave. -/
theorem parts_of_checked {types : Registry} {name : QualifiedName} {body : String}
    {c : ScriptCompilation} {statements : List Statement} {checked : CheckedScript}
    (h : (Compile.script name body).run types = .ok c)
    (hstatements : Script.parseScript body.toList = .ok statements)
    (hchecked : (ScriptCheck.check name statements).run types = .ok checked) :
    ∃ p : Parts types name body c, p.checked = checked := by
  obtain ⟨p⟩ := script_eq_ok h
  have hparsed := p.parsed
  rw [hstatements, Except.ok.injEq] at hparsed
  have hcheck := p.check
  rw [← hparsed, hchecked, Except.ok.injEq] at hcheck
  exact ⟨p, hcheck.symm⟩

/-- Every unit that a compilation returns holds a body that it computed. -/
theorem Returned.yields {types : Registry} {u : CompiledUnit} (h : Returned types u) :
    ∃ body, Yields types u body := by
  cases h with
  | target h =>
    obtain ⟨e, htree, -⟩ := target_eq_ok h
    exact ⟨_, .target h htree⟩
  | expression h =>
    obtain ⟨code, e, hcode, htree, -⟩ := expression_eq_ok h
    exact ⟨_, .expression h hcode htree⟩
  | script h hu =>
    obtain ⟨p⟩ := script_eq_ok h
    rcases List.mem_cons.mp hu with rfl | hu
    · exact ⟨_, .script h p.parsed p.check⟩
    · obtain ⟨x, hx, e, htree, rfl⟩ := p.mem_of_unit hu
      exact ⟨_, .part h p.parsed p.check hx htree hu rfl⟩
  | recordType h =>
    obtain ⟨defined, hfields, -⟩ := recordType_eq_ok h
    exact ⟨_, .recordType h hfields⟩

namespace Yields

variable {types : Registry} {u : CompiledUnit} {body : UnitBody}

/-- The payload of the unit holds the body. -/
theorem payload (h : Yields types u body) : u.payload = Payload.encode body := by
  cases h with
  | target h htree =>
    obtain ⟨e, hparse, rfl⟩ := target_eq_ok h
    rw [htree, Except.ok.injEq] at hparse
    rw [hparse]
    rfl
  | expression h hcode htree =>
    obtain ⟨code, e, htranslate, hparse, rfl⟩ := expression_eq_ok h
    rw [hcode, Except.ok.injEq] at htranslate
    rw [← htranslate, htree, Except.ok.injEq] at hparse
    rw [hparse]
    rfl
  | script h hstatements hchecked =>
    obtain ⟨p, rfl⟩ := parts_of_checked h hstatements hchecked
    rw [p.script]
    rfl
  | part h hstatements hchecked hx htree hu hname =>
    obtain ⟨p, rfl⟩ := parts_of_checked h hstatements hchecked
    obtain ⟨y, hy, e, hparse, rfl⟩ := p.mem_of_unit hu
    obtain ⟨-, -, hunits⟩ := ScriptCheck.check_matches p.check
    obtain rfl := (hunits y hy).2 _ hx hname
    rw [htree, Except.ok.injEq] at hparse
    rw [hparse]
    rfl
  | recordType h hfields =>
    obtain ⟨defined, hdefined, rfl⟩ := recordType_eq_ok h
    rw [hfields, Except.ok.injEq] at hdefined
    rw [hdefined]
    rfl

theorem tree {e : TargetExpr} (h : Yields types u (.expression e)) :
    ∃ text, Target.parseTarget text = .ok e := by
  cases h with
  | target _ htree => exact ⟨_, htree⟩
  | expression _ _ htree => exact ⟨_, htree⟩
  | part _ _ _ _ htree _ _ => exact ⟨_, htree⟩

theorem primitive {e : TargetExpr} (h : Yields types u (.expression e)) : e.root.Primitive := by
  obtain ⟨text, htree⟩ := h.tree
  exact Target.parseTarget_primitive htree

theorem proper (h : Yields types u body) : body.Proper := by
  cases body with
  | expression e =>
    obtain ⟨text, htree⟩ := h.tree
    refine ⟨fun v hv => ?_, Target.parseTarget_words htree⟩
    have hnone := h.primitive.typeName? v hv
    cases v with
    | record type fields => cases hnone
    | _ => exact trivial
  | _ => exact trivial

/-- The names in a body belong to the unit's own package, where they are as well formed as the
unit's name, or to registered record types. -/
theorem names (h : Yields types u body) :
    ∀ n ∈ body.names, (n.package = u.name.package ∧ n.isWellFormed = true) ∨ types.Lists n := by
  cases body with
  | expression e =>
    intro n hn
    obtain ⟨v, hv, htype⟩ := List.mem_filterMap.mp hn
    rw [h.primitive.typeName? v hv] at htype
    cases htype
  | script program =>
    cases h with
    | script h hstatements hchecked =>
      obtain ⟨p, rfl⟩ := parts_of_checked h hstatements hchecked
      obtain ⟨⟨t, hmatches⟩, hinputs, hunits⟩ := ScriptCheck.check_matches p.check
      have hwell := ScriptCheck.check_wellFormed p.wellFormed p.check
      intro n hn
      have hmem : n ∈ Instruction.namesItems p.checked.program.statements := by
        rcases List.mem_append.mp hn with hn | hn
        · rw [hinputs] at hn
          obtain ⟨i, hi, hn⟩ := List.mem_flatMap.mp hn
          exact Instruction.names_allDeclaredInputs _ i hi n hn
        · exact hn
      rcases hmatches.names n hmem with ⟨x, hx, rfl⟩ | hlists
      · left
        refine ⟨?_, hwell x hx⟩
        obtain ⟨⟨d, hd⟩, -⟩ := hunits x hx
        rw [hd, p.script]
        rfl
      · exact .inr hlists
  | record t =>
    cases h with
    | recordType h hfields =>
      obtain ⟨defined, hdefined, rfl⟩ := recordType_eq_ok h
      have hgrounded := fields_eq_ok hfields (List.forall_mem_nil _)
      have hname := wellFormed_of_recordType h
      refine List.forall_mem_cons.mpr ⟨.inl ⟨rfl, hname⟩, fun n hn => ?_⟩
      obtain ⟨f, hf, hn⟩ := List.mem_flatMap.mp hn
      obtain ⟨hplain, hknown | hself⟩ := hgrounded f hf
      · exact .inr (hknown.lists hplain n hn)
      · rw [hself] at hn
        obtain rfl := List.mem_singleton.mp hn
        exact .inl ⟨rfl, hname⟩

theorem recordName {t : RecordType} (h : Yields types u (.record t)) : t.name = u.name := by
  cases h with
  | recordType h hfields =>
    obtain ⟨defined, -, rfl⟩ := recordType_eq_ok h
    rfl

/-- All names in a body are read back when those of the unit's own package are. -/
theorem parsesBack (h : Yields types u body) (hwell : types.WellFormed)
    (hown : ∀ n ∈ body.names, n.package = u.name.package → n.ParsesBack) :
    ∀ n ∈ body.names, n.ParsesBack := by
  intro n hn
  rcases h.names n hn with ⟨hpackage, -⟩ | ⟨hplain, t, ht⟩
  · exact hown n hn hpackage
  · exact hplain.parsesBack (hwell n t ht)

/-- The names of the unit's own package are read back when the unit has a name that a person
gave. -/
theorem parsesBack_of_plain (h : Yields types u body) (hwell : types.WellFormed)
    (hplain : u.name.Plain) :
    ∀ n ∈ body.names, n.package = u.name.package → n.ParsesBack := by
  intro n hn hpackage
  have hpath : n.path = u.name.path := congrArg Package.path hpackage
  have hn' : n.Plain :=
    ⟨hpath ▸ hplain.nonempty, hpath ▸ hplain.points, hpath ▸ hplain.dollars⟩
  rcases h.names n hn with ⟨-, hname⟩ | ⟨-, t, ht⟩
  · exact hn'.parsesBack hname
  · exact hn'.parsesBack (hwell n t ht)

theorem readable (h : Yields types u body) (hnames : ∀ n ∈ body.names, n.ParsesBack) :
    body.Readable := by
  cases body with
  | expression e => exact h.primitive
  | script p =>
    rw [UnitBody.names, List.forall_mem_append] at hnames
    refine ⟨fun i hi => ?_, Instruction.readableItems_of_names _ hnames.2⟩
    apply SemanticType.readable_of_names
    exact fun n hn => hnames.1 n (List.mem_flatMap_of_mem hi hn)
  | record t =>
    rw [UnitBody.names, List.forall_mem_cons] at hnames
    refine ⟨hnames.1.readable, fun f hf => ?_⟩
    apply SemanticType.readable_of_names
    exact fun n hn => hnames.2 n (List.mem_flatMap_of_mem hf hn)

end Yields

end Compile

namespace Payload

open Compile

/-- A body is decoded from its payload as it was, if its names are read back from their texts, its
decimals are finite and its document is not nested too deeply. A unit that a compilation returns
under a name of its kind is loaded as the body that was compiled, or it is not loaded, and then the
body is nested too deeply or holds a decimal that is not finite. -/
theorem restores :
    (∀ body : UnitBody, body.Proper → (∀ n ∈ body.names, n.ParsesBack) →
      (∀ d ∈ body.decimals, d.isFinite = true) → (∀ d ∈ body.decimals, d.Rereads) →
        body.toJson.depth ≤ depthLimit → decode (encode body) = .ok body) ∧
    ∀ types : Registry, types.WellFormed →
      (∀ u, Returned types u → ∃ body, Yields types u body) ∧
      ∀ u body, Yields types u body → u.name.kind = body.kind →
        (∀ n ∈ body.names, n.package = u.name.package → n.ParsesBack) →
        (∀ d ∈ body.decimals, d.Rereads) →
          load u.name u.payload = .ok body ∨
            (∃ fault, load u.name u.payload = .error fault) ∧
              (depthLimit < body.toJson.depth ∨ ∃ d ∈ body.decimals, d.isFinite = false) := by
  constructor
  · intro body hproper hnames hfinite hdecimals hdepth
    apply decode_encode_self hproper hnames _ hdepth
    exact fun d hd => hdecimals d hd (hfinite d hd)
  · intro types hwell
    refine ⟨fun u hu => hu.yields, fun u body hyields hkind hown hdecimals => ?_⟩
    have hnames := hyields.parsesBack hwell hown
    rw [hyields.payload]
    cases hload : load u.name (encode body) with
    | ok loaded =>
      -- However deep the body is, nothing else than the body can be loaded.
      left
      rw [load_encode (hyields.readable hnames) hload]
      exact congrArg Except.ok (UnitBody.reread_eq fun d hd => (hdecimals d hd).reread)
    | error fault =>
      right
      refine ⟨⟨fault, rfl⟩, ?_⟩
      rcases Nat.lt_or_ge depthLimit body.toJson.depth with hdeep | hdepth
      · exact .inl hdeep
      · right
        cases hall : body.decimals.all Decimal.isFinite with
        | false =>
          obtain ⟨d, hd, hinfinite⟩ := List.all_eq_false.mp hall
          exact ⟨d, hd, by simpa using hinfinite⟩
        | true =>
          have hfinite := List.all_eq_true.mp hall
          have hdecode : decode (encode body) = .ok body :=
            decode_encode_self hyields.proper hnames (fun d hd => hdecimals d hd (hfinite d hd))
              hdepth
          have hname : ∀ t, body = .record t → t.name = u.name := by
            rintro t rfl
            exact hyields.recordName
          rw [load_eq_ok.mpr ⟨hdecode, hkind.symm, hname⟩] at hload
          cases hload

/-- An expression with records in an array, a decimal and a text with quotes. -/
def nested : UnitBody :=
  .expression ⟨.reference, .binary .add
    (.literal (.array [.decimal (.ofDigits false 5 (-1)),
      .record (.record "sales::Customer") [("age", .integer 7), ("name", .string "\"A\" \\ B")]]))
    (.read ⟨"customer", [.field "tags", .index 3]⟩ .string)⟩

/-- A nested expression is decoded as it was, and a script that compiles is loaded as its
program. -/
theorem restores_nested :
    decode (encode nested) = .ok nested ∧
      ∃ c program, (Compile.script (.script "Calc") assigning).run (fun _ => .ok none) = .ok c ∧
        Yields (fun _ => .ok none) c.script (.script program) ∧
          load c.script.name c.script.payload = .ok (.script program) := by
  constructor
  · apply restores.1 nested
    · decide +kernel
    · decide +kernel
    · decide +kernel
    · decide +kernel
    · decide +kernel
  · have hwell : Registry.WellFormed fun _ => .ok none := nofun
    have hcompiles : ((Compile.script (.script "Calc") assigning).run
        fun _ => .ok none).toOption.isSome = true := by decide +kernel
    have hstored : scriptLoads (fun _ => .ok none) (.script "Calc") assigning = true := by
      decide +kernel
    obtain ⟨c, hcompile, hloads⟩ := exists_of_scriptLoads hcompiles hstored
    obtain ⟨p⟩ := script_eq_ok hcompile
    have hyields : Yields (fun _ => .ok none) c.script (.script p.checked.program) :=
      .script hcompile p.parsed p.check
    have hname : c.script.name = .script "Calc" := by
      rw [p.script]
      rfl
    have hown := hyields.parsesBack_of_plain hwell (hname ▸ QualifiedName.plain_script "Calc")
    refine ⟨c, p.checked.program, hcompile, hyields, ?_⟩
    rcases (restores.2 _ hwell).2 c.script _ hyields (by rw [hname]; rfl) hown nofun with
      hload | ⟨⟨fault, hload⟩, -⟩
    · exact hload
    · obtain ⟨loaded, hloaded⟩ := hloads c.script List.mem_cons_self
      rw [CompiledUnit.load_eq_ok, hload] at hloaded
      cases hloaded

/-- The names in a script are not those in what is read back from its document. -/
def misread (types : Registry) (name : QualifiedName) (body : String) : Bool :=
  match Script.parseScript body.toList with
  | .error _ => false
  | .ok statements =>
    match (ScriptCheck.check name statements).run types with
    | .error _ => false
    | .ok checked =>
      (UnitBody.ofJson? depthLimit (UnitBody.script checked.program).toJson).any fun loaded =>
        loaded.names ≠ (UnitBody.script checked.program).names

theorem ne_of_misread {types : Registry} {name : QualifiedName} {body : String}
    {c : ScriptCompilation} {p : Parts types name body c} (h : misread types name body = true)
    {loaded : UnitBody} (hload : c.script.load = .ok loaded) :
    loaded ≠ .script p.checked.program := by
  intro hsame
  rw [p.script, CompiledUnit.load_ofBody_eq_ok] at hload
  have hread := decode_encode.mp (load_eq_ok.mp hload).1
  have hnames : misread types name body = false := by
    unfold misread
    rw [p.parsed]
    dsimp only
    rw [p.check]
    dsimp only
    rw [hread, hsame, Option.any_some, decide_eq_false (not_not_intro rfl)]
  rw [hnames] at h
  cases h

/-- An expression that is compiled under the name of a script is not loaded, though it is neither
nested deeply nor holds a decimal. A script is loaded as another one when the names of its
expressions are read back as other names, as they are behind a segment that ends with a dollar
sign. -/
theorem not_restored :
    (∃ u e, Compile.target (.script "Calc") "return int(1);" = .ok u ∧
      Yields (fun _ => .ok none) u (.expression e) ∧
        (UnitBody.expression e).toJson.depth ≤ depthLimit ∧ (UnitBody.expression e).decimals = [] ∧
          ∃ fault, load u.name u.payload = .error fault) ∧
    ∃ c program loaded,
      (Compile.script ⟨.script, ["a$"], none⟩ assigning).run (fun _ => .ok none) = .ok c ∧
        Yields (fun _ => .ok none) c.script (.script program) ∧
          load c.script.name c.script.payload = .ok loaded ∧ loaded ≠ .script program := by
  constructor
  · have hshallow : (Target.parseTarget "return int(1);".toList).toOption.any (fun e =>
        (UnitBody.expression e).toJson.depth ≤ depthLimit ∧
          (UnitBody.expression e).decimals = []) = true := by decide +kernel
    have hname : (QualifiedName.script "Calc").isWellFormed = true := by decide +kernel
    cases htree : Target.parseTarget "return int(1);".toList with
    | error cause =>
      rw [htree] at hshallow
      cases hshallow
    | ok e =>
      have hcompile : Compile.target (.script "Calc") "return int(1);" =
          .ok (.ofBody (.script "Calc") (.expression e) none none) := by
        rw [Compile.target, checkName, if_pos hname, targetUnit, htree]
        rfl
      rw [htree] at hshallow
      obtain ⟨hdepth, hdecimals⟩ := of_decide_eq_true hshallow
      refine ⟨_, e, hcompile, .target hcompile htree, hdepth, hdecimals, ?_⟩
      cases hload : load (.script "Calc") (encode (.expression e)) with
      | error fault => exact ⟨fault, hload⟩
      | ok loaded =>
        have hunit : (CompiledUnit.ofBody (.script "Calc") (.expression e) none none).load =
            .ok loaded := CompiledUnit.load_ofBody_eq_ok.mpr hload
        cases (CompiledUnit.kind_of_load_ofBody hunit).2
  · have hcompiles : ((Compile.script ⟨.script, ["a$"], none⟩ assigning).run
        fun _ => .ok none).toOption.isSome = true := by decide +kernel
    have hstored : scriptLoads (fun _ => .ok none) ⟨.script, ["a$"], none⟩ assigning = true := by
      decide +kernel
    have hother : misread (fun _ => .ok none) ⟨.script, ["a$"], none⟩ assigning = true := by
      decide +kernel
    obtain ⟨c, hcompile, hloads⟩ := exists_of_scriptLoads hcompiles hstored
    obtain ⟨p⟩ := script_eq_ok hcompile
    have hyields : Yields (fun _ => .ok none) c.script (.script p.checked.program) :=
      .script hcompile p.parsed p.check
    obtain ⟨loaded, hloaded⟩ := hloads c.script List.mem_cons_self
    exact ⟨c, p.checked.program, loaded, hcompile, hyields, CompiledUnit.load_eq_ok.mp hloaded,
      ne_of_misread hother hloaded⟩

end Payload

end Scriptorium

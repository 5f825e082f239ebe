import Scriptorium.Proofs.Unit.Contents
import Scriptorium.Proofs.Unit.Payload

/-!
# Bodies read back from their documents

A reader is told the depth that is left to it. Where that is enough for the
document of a body, nothing else can go wrong than that a name is not read back
from its text or a decimal not from its numeral, and the body is read back as
it was. The parts of a body are followed here, one reader after another, each
with the depth that the part's own document needs.
-/

namespace Scriptorium

open Json

namespace Json

/-- The reader makes `a` out of the document, wherever its depth is admitted. -/
def Reads {α : Type} (f : Nat → Json → Option α) (j : Json) (a : α) : Prop :=
  ∀ depth, j.depth ≤ depth → f depth j = some a

/-- Documents that are read one by one are read together. -/
theorem Reads.mapM {α : Type} {f : Nat → Json → Option α} {g : α → Json} {as : List α}
    (h : ∀ a ∈ as, Reads f (g a) a) {depth : Nat} (hdepth : ∀ j ∈ as.map g, j.depth ≤ depth) :
    (as.map g).mapM (f depth) = some as := by
  induction as with
  | nil => rfl
  | cons a as ih =>
    rw [List.map_cons, List.forall_mem_cons] at hdepth
    have ha := h a List.mem_cons_self depth hdepth.1
    have has := ih (fun b hb => h b (List.mem_cons_of_mem _ hb)) hdepth.2
    rw [List.map_cons, List.mapM_cons, ha, has]
    rfl

theorem Reads.option? {α : Type} {f : Nat → Json → Option α} {g : α → Json} {o : Option α}
    (hnull : ∀ a, g a ≠ .null) (h : ∀ a ∈ o, Reads f (g a) a) {depth : Nat}
    (hdepth : (ofOption g o).depth ≤ depth) :
    Json.option? (f depth) (some (ofOption g o)) = some o := by
  cases o with
  | none => rfl
  | some a =>
    have hread : f depth (g a) = some a := h a rfl depth hdepth
    unfold ofOption Json.option?
    split
    · next heq => cases heq
    · next heq => exact absurd (Option.some.inj heq) (hnull a)
    · next heq =>
      obtain rfl := Option.some.inj heq
      rw [hread]
      rfl

end Json

theorem QualifiedName.ParsesBack.ofJson?_toJson {n : QualifiedName} (h : n.ParsesBack) :
    QualifiedName.ofJson? n.toJson = some n := by
  rw [QualifiedName.ofJson?, QualifiedName.toJson, text?_ofText, Option.bind_some]
  exact h

theorem SemanticType.reads_toJson {t : SemanticType} (h : ∀ n ∈ t.names, n.ParsesBack) :
    Reads SemanticType.ofJson? t.toJson t := by
  intro depth hdepth
  cases t with
  | primitive k =>
    rw [SemanticType.ofJson?, SemanticType.toJson, PrimitiveKind.toJson, alternative?_tag]
    cases k <;> rfl
  | array =>
    rw [SemanticType.ofJson?, SemanticType.toJson, alternative?_tag]
    rfl
  | record name =>
    obtain ⟨inner, rfl, -⟩ := depth_tagged_le.mp hdepth
    have hname := (h name List.mem_cons_self).ofJson?_toJson
    rw [SemanticType.ofJson?, SemanticType.toJson, alternative?_tagged]
    simp only [Option.bind_eq_bind, Option.bind_some, hname]
    rfl

/-! ### Expressions -/

theorem Step.reads_toJson {s : Step} (h : s.IsWord) : Reads Step.ofJson? s.toJson s := by
  intro depth hdepth
  cases s with
  | field name =>
    obtain ⟨inner, rfl, -⟩ := depth_tagged_le.mp hdepth
    rw [Step.ofJson?, Step.toJson, alternative?_tagged]
    simp only [Option.bind_eq_bind, Option.bind_some, text?_ofText]
    rfl
  | index n =>
    obtain ⟨inner, rfl, -⟩ := depth_tagged_le.mp hdepth
    rw [Step.ofJson?, Step.toJson, alternative?_tagged]
    simp only [Option.bind_eq_bind, Option.bind_some, nat?_ofNat_of_lt h h]
    rfl

theorem Access.reads_toJson {a : Access} (h : ∀ s ∈ a.steps, s.IsWord) :
    Reads Access.ofJson? a.toJson a := by
  intro depth hdepth
  obtain ⟨inner, rfl, hmembers⟩ := depth_ofMembers_le.mp hdepth
  simp only [List.forall_mem_cons] at hmembers
  obtain ⟨inner, rfl, hsteps⟩ := depth_array_le.mp hmembers.2.1
  have hread := Reads.mapM (fun s hs => Step.reads_toJson (h s hs)) hsteps
  rw [Access.ofJson?, Access.toJson, fields?_two _ _ _ (by decide)]
  simp only [Option.bind_eq_bind, Option.bind_some, text?_ofText, items?, hread]
  rfl

namespace Value

/-- What the readers have to know about one value: its numeral denotes the decimal, and the
record has the name that is read back and its fields in their order. -/
def Legible : Value → Prop
  | .decimal d => (ofDecimal d).decimal? = some d
  | .record type fields => type.ParsesBack ∧ Entries.Sorted fields
  | _ => True

theorem decode?_array (depth : Nat) (items : List Json) :
    Value.decode? (depth + 2) (tagged "Array" (.array items)) =
      (items.mapM (Value.decode? depth)).map .array := by
  have hitem : ∃ field, Value.decode? (depth + 2) (tagged "Array" (.array items)) =
      (alternative? (depth + 2) (tagged "Array" (.array items))).bind
        (ofAlternative? (some (Value.decode? depth)) field) := by
    cases depth with
    | zero => exact ⟨none, rfl⟩
    | succ depth => exact ⟨_, rfl⟩
  obtain ⟨field, hread⟩ := hitem
  rw [hread, alternative?_tagged, Option.bind_some, ofAlternative?]
  simp only [Option.bind_eq_bind, Option.bind_some]
  cases items.mapM (Value.decode? depth) <;> rfl

mutual

theorem reads_encode (v : Value) (h : ∀ w ∈ v.parts, w.Legible) :
    Reads Value.decode? v.encode v := by
  intro depth hdepth
  obtain ⟨item, field, hread⟩ := Value.decode?_eq depth v.encode
  match v with
  | .null =>
    rw [hread, Value.encode, alternative?_tag]
    rfl
  | .integer n =>
    obtain ⟨inner, rfl, -⟩ := depth_tagged_le.mp hdepth
    rw [hread, Value.encode, alternative?_tagged, Option.bind_some, ofAlternative?, int64?_ofInt64]
    rfl
  | .decimal d =>
    obtain ⟨inner, rfl, -⟩ := depth_tagged_le.mp hdepth
    have hd : (ofDecimal d).decimal? = some d := h (.decimal d) List.mem_cons_self
    rw [hread, Value.encode, alternative?_tagged, Option.bind_some, ofAlternative?, hd]
    rfl
  | .boolean b =>
    obtain ⟨inner, rfl, -⟩ := depth_tagged_le.mp hdepth
    rw [hread, Value.encode, alternative?_tagged, Option.bind_some, ofAlternative?]
    rfl
  | .string s =>
    obtain ⟨inner, rfl, -⟩ := depth_tagged_le.mp hdepth
    rw [hread, Value.encode, alternative?_tagged, Option.bind_some, ofAlternative?, text?_ofText]
    rfl
  | .array items =>
    -- The items of an array lie two levels below it, the fields of a record three.
    obtain ⟨inner, rfl, harray⟩ := depth_tagged_le.mp hdepth
    obtain ⟨inner, rfl, hitems⟩ := depth_array_le.mp harray
    have hlegible : ∀ w ∈ Value.partsItems items, w.Legible := fun w hw =>
      h w (List.mem_cons_of_mem _ hw)
    rw [Value.encode, decode?_array, Value.reads_encodeItems items hlegible hitems]
    rfl
  | .record type fields =>
    obtain ⟨inner, rfl, hobject⟩ := depth_tagged_le.mp hdepth
    obtain ⟨inner, rfl, hmembers⟩ := depth_ofMembers_le.mp hobject
    simp only [List.forall_mem_cons] at hmembers
    obtain ⟨inner, rfl, hfields⟩ := depth_object_le.mp hmembers.2.1
    obtain ⟨htype, hsorted⟩ : (Value.record type fields).Legible := h _ List.mem_cons_self
    have hlegible : ∀ w ∈ Value.partsFields fields, w.Legible := fun w hw =>
      h w (List.mem_cons_of_mem _ hw)
    rw [Value.encode, Value.decode?, alternative?_tagged, Option.bind_some, ofAlternative?,
      fields?_two _ _ _ (by decide)]
    simp only [Option.bind_eq_bind, Option.bind_some, htype.ofJson?_toJson,
      Value.reads_encodeFields fields hlegible hfields, Entries.ofList_of_sorted hsorted]
    rfl

theorem reads_encodeItems (vs : List Value) (h : ∀ w ∈ Value.partsItems vs, w.Legible)
    {depth : Nat} (hdepth : ∀ j ∈ Value.encodeItems vs, j.depth ≤ depth) :
    (Value.encodeItems vs).mapM (Value.decode? depth) = some vs := by
  match vs with
  | [] => rfl
  | v :: rest =>
    rw [Value.encodeItems, List.forall_mem_cons] at hdepth
    rw [Value.partsItems, List.forall_mem_append] at h
    rw [Value.encodeItems, List.mapM_cons, Value.reads_encode v h.1 depth hdepth.1,
      Value.reads_encodeItems rest h.2 hdepth.2]
    rfl

theorem reads_encodeFields (fields : List (String × Value))
    (h : ∀ w ∈ Value.partsFields fields, w.Legible) {depth : Nat}
    (hdepth : ∀ m ∈ Value.encodeFields fields, m.2.depth ≤ depth) :
    dictionary? (Value.decode? depth) (Value.encodeFields fields) = some fields := by
  match fields with
  | [] => rfl
  | (name, v) :: rest =>
    rw [Value.encodeFields, List.forall_mem_cons] at hdepth
    rw [Value.partsFields, List.forall_mem_append] at h
    rw [Value.encodeFields, dictionary?, unescape?_escape]
    simp only [Option.bind_eq_bind, Option.bind_some, Value.reads_encode v h.1 depth hdepth.1,
      Value.reads_encodeFields rest h.2 hdepth.2, String.ofList_toList]
    rfl

end

end Value

theorem Node.reads_toJson (n : Node) (hvalues : ∀ v ∈ n.values, v.Legible)
    (hwords : ∀ a ∈ n.accesses, ∀ s ∈ a.steps, s.IsWord) : Reads Node.ofJson? n.toJson n := by
  induction n with
  | literal v =>
    intro depth hdepth
    obtain ⟨inner, rfl, hliteral⟩ := depth_tagged_le.mp hdepth
    have hread := Value.reads_encode v hvalues inner hliteral
    rw [Node.ofJson?, Node.toJson, alternative?_tagged]
    simp only [Option.bind_eq_bind, Option.bind_some, hread]
    rfl
  | read access kind =>
    intro depth hdepth
    obtain ⟨inner, rfl, hobject⟩ := depth_tagged_le.mp hdepth
    obtain ⟨inner, rfl, hmembers⟩ := depth_ofMembers_le.mp hobject
    simp only [List.forall_mem_cons] at hmembers
    have haccess := Access.reads_toJson (hwords access List.mem_cons_self) inner hmembers.1
    rw [Node.ofJson?, Node.toJson, alternative?_tagged]
    simp only [Option.bind_eq_bind, Option.bind_some]
    rw [fields?_two _ _ _ (by decide)]
    simp only [Option.bind_some, haccess, PrimitiveKind.ofJson?_toJson]
    rfl
  | reference access =>
    intro depth hdepth
    obtain ⟨inner, rfl, haccess⟩ := depth_tagged_le.mp hdepth
    have hread := Access.reads_toJson (hwords access List.mem_cons_self) inner haccess
    rw [Node.ofJson?, Node.toJson, alternative?_tagged]
    simp only [Option.bind_eq_bind, Option.bind_some, hread]
    rfl
  | null =>
    intro depth _
    rw [Node.ofJson?, Node.toJson, alternative?_tag]
    rfl
  | binary op lhs rhs ihl ihr =>
    intro depth hdepth
    obtain ⟨inner, rfl, hobject⟩ := depth_tagged_le.mp hdepth
    obtain ⟨inner, rfl, hmembers⟩ := depth_ofMembers_le.mp hobject
    simp only [List.forall_mem_cons] at hmembers
    rw [Node.values, List.forall_mem_append] at hvalues
    rw [Node.accesses, List.forall_mem_append] at hwords
    have hlhs := ihl hvalues.1 hwords.1 inner hmembers.2.1
    have hrhs := ihr hvalues.2 hwords.2 inner hmembers.2.2.1
    rw [Node.ofJson?, Node.toJson, alternative?_tagged]
    simp only [Option.bind_eq_bind, Option.bind_some]
    rw [fields?_three _ _ _ _ (by decide)]
    simp only [Option.bind_some, BinaryOp.ofJson?_tag, hlhs, hrhs]
    rfl

theorem TargetExpr.reads_toJson {e : TargetExpr} (hvalues : ∀ v ∈ e.root.values, v.Legible)
    (hwords : ∀ a ∈ e.root.accesses, ∀ s ∈ a.steps, s.IsWord) :
    Reads TargetExpr.ofJson? e.toJson e := by
  intro depth hdepth
  obtain ⟨inner, rfl, hmembers⟩ := depth_ofMembers_le.mp hdepth
  simp only [List.forall_mem_cons] at hmembers
  have hroot := Node.reads_toJson e.root hvalues hwords inner hmembers.2.1
  rw [TargetExpr.ofJson?, TargetExpr.toJson, fields?_two _ _ _ (by decide)]
  simp only [Option.bind_eq_bind, Option.bind_some, ResultKind.ofJson?_toJson, hroot]
  rfl

/-! ### Scripts and record types -/

theorem ExprRef.reads_toJson {r : ExprRef} (h : r.name.ParsesBack) :
    Reads ExprRef.ofJson? r.toJson r := by
  intro depth hdepth
  obtain ⟨inner, rfl, -⟩ := depth_ofMembers_le.mp hdepth
  rw [ExprRef.ofJson?, ExprRef.toJson, fields?_two _ _ _ (by decide)]
  simp only [Option.bind_eq_bind, Option.bind_some, h.ofJson?_toJson, text?_ofText]
  rfl

theorem Condition.reads_toJson {c : Condition} (h : ∀ n ∈ c.names, n.ParsesBack) :
    Reads Condition.ofJson? c.toJson c := by
  intro depth hdepth
  obtain ⟨inner, rfl, hmembers⟩ := depth_ofMembers_le.mp hdepth
  simp only [List.forall_mem_cons] at hmembers
  simp only [Condition.names, List.forall_mem_cons] at h
  have hleft := ExprRef.reads_toJson h.1 inner hmembers.2.1
  have hright := ExprRef.reads_toJson h.2.1 inner hmembers.2.2.1
  have hdescription := Reads.option? (f := fun _ => text?) (o := c.description)
    (by simp [ofText]) (fun s _ _ _ => text?_ofText s) hmembers.2.2.2.1
  rw [Condition.ofJson?, Condition.toJson, fields?_four _ _ _ _ _ (by decide)]
  simp only [Option.bind_eq_bind, Option.bind_some, Comparison.ofJson?_tag, hleft, hright,
    hdescription]
  rfl

mutual

theorem Instruction.reads_toJson (i : Instruction) (h : ∀ n ∈ i.names, n.ParsesBack) :
    Reads Instruction.ofJson? i.toJson i := by
  intro depth hdepth
  match i with
  | .declareInput name type =>
    obtain ⟨inner, rfl, hobject⟩ := depth_tagged_le.mp hdepth
    obtain ⟨inner, rfl, hmembers⟩ := depth_ofMembers_le.mp hobject
    simp only [List.forall_mem_cons] at hmembers
    have htype := SemanticType.reads_toJson h inner hmembers.2.1
    rw [Instruction.ofJson?, Instruction.toJson, alternative?_tagged]
    simp only [Option.bind_eq_bind, Option.bind_some]
    rw [fields?_two _ _ _ (by decide)]
    simp only [Option.bind_some, text?_ofText, htype]
    rfl
  | .declareLocal name type init =>
    obtain ⟨inner, rfl, hobject⟩ := depth_tagged_le.mp hdepth
    obtain ⟨inner, rfl, hmembers⟩ := depth_ofMembers_le.mp hobject
    simp only [List.forall_mem_cons] at hmembers
    rw [Instruction.names, List.forall_mem_append] at h
    have htype := SemanticType.reads_toJson h.1 inner hmembers.2.1
    have hinit := Reads.option? ExprRef.toJson_ne_null
      (fun ref href => ExprRef.reads_toJson (h.2 ref.name
        (List.mem_map_of_mem (Option.mem_toList.mpr href)))) hmembers.2.2.1
    rw [Instruction.ofJson?, Instruction.toJson, alternative?_tagged]
    simp only [Option.bind_eq_bind, Option.bind_some]
    rw [fields?_three _ _ _ _ (by decide)]
    simp only [Option.bind_some, text?_ofText, htype, hinit]
    rfl
  | .setLocal target value =>
    obtain ⟨inner, rfl, hobject⟩ := depth_tagged_le.mp hdepth
    obtain ⟨inner, rfl, hmembers⟩ := depth_ofMembers_le.mp hobject
    simp only [List.forall_mem_cons] at hmembers
    have hvalue := ExprRef.reads_toJson (h value.name List.mem_cons_self) inner hmembers.2.1
    rw [Instruction.ofJson?, Instruction.toJson, alternative?_tagged]
    simp only [Option.bind_eq_bind, Option.bind_some]
    rw [fields?_two _ _ _ (by decide)]
    simp only [Option.bind_some, text?_ofText, hvalue]
    rfl
  | .branch condition thenBranch elseBranch =>
    obtain ⟨inner, rfl, hobject⟩ := depth_tagged_le.mp hdepth
    obtain ⟨inner, rfl, hmembers⟩ := depth_ofMembers_le.mp hobject
    simp only [List.forall_mem_cons] at hmembers
    -- Either side of the branch admits the same depth, so the reader's one measure fits both.
    obtain ⟨inner, rfl, hthen⟩ := depth_array_le.mp hmembers.2.1
    obtain ⟨_, hsame, helse⟩ := depth_array_le.mp hmembers.2.2.1
    obtain rfl := Nat.succ.inj hsame
    rw [Instruction.names, List.forall_mem_append, List.forall_mem_append] at h
    have hcondition := Condition.reads_toJson h.1.1 (inner + 1) hmembers.1
    have hthen := Instruction.reads_toJsonItems thenBranch h.1.2 hthen
    have helse := Instruction.reads_toJsonItems elseBranch h.2 helse
    rw [Instruction.ofJson?, Instruction.toJson, alternative?_tagged]
    simp only [Option.bind_eq_bind, Option.bind_some]
    rw [fields?_three _ _ _ _ (by decide)]
    simp only [Option.bind_some, hcondition, hthen, helse]
    rfl

theorem Instruction.reads_toJsonItems (is : List Instruction)
    (h : ∀ n ∈ Instruction.namesItems is, n.ParsesBack) {depth : Nat}
    (hdepth : ∀ j ∈ Instruction.toJsonItems is, j.depth ≤ depth) :
    (Instruction.toJsonItems is).mapM (Instruction.ofJson? depth) = some is := by
  match is with
  | [] => rfl
  | i :: rest =>
    rw [Instruction.toJsonItems, List.forall_mem_cons] at hdepth
    rw [Instruction.namesItems, List.forall_mem_append] at h
    rw [Instruction.toJsonItems, List.mapM_cons, Instruction.reads_toJson i h.1 depth hdepth.1,
      Instruction.reads_toJsonItems rest h.2 hdepth.2]
    rfl

end

theorem InputParameter.reads_toJson {p : InputParameter} (h : ∀ n ∈ p.type.names, n.ParsesBack) :
    Reads InputParameter.ofJson? p.toJson p := by
  intro depth hdepth
  obtain ⟨inner, rfl, hmembers⟩ := depth_ofMembers_le.mp hdepth
  simp only [List.forall_mem_cons] at hmembers
  have htype := SemanticType.reads_toJson h inner hmembers.2.1
  rw [InputParameter.ofJson?, InputParameter.toJson, fields?_two _ _ _ (by decide)]
  simp only [Option.bind_eq_bind, Option.bind_some, text?_ofText, htype]
  rfl

theorem ScriptProgram.reads_toJson {p : ScriptProgram}
    (hinputs : ∀ i ∈ p.inputs, ∀ n ∈ i.type.names, n.ParsesBack)
    (hstatements : ∀ n ∈ Instruction.namesItems p.statements, n.ParsesBack) :
    Reads ScriptProgram.ofJson? p.toJson p := by
  intro depth hdepth
  obtain ⟨inner, rfl, hmembers⟩ := depth_ofMembers_le.mp hdepth
  simp only [List.forall_mem_cons] at hmembers
  obtain ⟨inner, rfl, hparameters⟩ := depth_array_le.mp hmembers.1
  obtain ⟨_, hsame, hitems⟩ := depth_array_le.mp hmembers.2.1
  obtain rfl := Nat.succ.inj hsame
  have hparameters :=
    Reads.mapM (fun i hi => InputParameter.reads_toJson (hinputs i hi)) hparameters
  have hitems := Instruction.reads_toJsonItems p.statements hstatements hitems
  rw [ScriptProgram.ofJson?, ScriptProgram.toJson, fields?_two _ _ _ (by decide)]
  simp only [Option.bind_eq_bind, Option.bind_some, items?, hparameters, hitems]
  rfl

theorem FieldDefinition.reads_toJson {f : FieldDefinition}
    (h : ∀ n ∈ f.type.names, n.ParsesBack) : Reads FieldDefinition.ofJson? f.toJson f := by
  intro depth hdepth
  obtain ⟨inner, rfl, hmembers⟩ := depth_ofMembers_le.mp hdepth
  simp only [List.forall_mem_cons] at hmembers
  have htype := SemanticType.reads_toJson h inner hmembers.2.1
  rw [FieldDefinition.ofJson?, FieldDefinition.toJson, fields?_two _ _ _ (by decide)]
  simp only [Option.bind_eq_bind, Option.bind_some, text?_ofText, htype]
  rfl

theorem RecordType.reads_toJson {t : RecordType} (hname : t.name.ParsesBack)
    (hfields : ∀ f ∈ t.fields, ∀ n ∈ f.type.names, n.ParsesBack) :
    Reads RecordType.ofJson? t.toJson t := by
  intro depth hdepth
  obtain ⟨inner, rfl, hmembers⟩ := depth_ofMembers_le.mp hdepth
  simp only [List.forall_mem_cons] at hmembers
  obtain ⟨inner, rfl, hdefinitions⟩ := depth_array_le.mp hmembers.2.1
  have hread := Reads.mapM (fun f hf => FieldDefinition.reads_toJson (hfields f hf)) hdefinitions
  rw [RecordType.ofJson?, RecordType.toJson, fields?_two _ _ _ (by decide)]
  simp only [Option.bind_eq_bind, Option.bind_some, hname.ofJson?_toJson, items?, hread]
  rfl

namespace UnitBody

theorem mem_decimals {body : UnitBody} {d : Decimal} (h : Value.decimal d ∈ body.values) :
    d ∈ body.decimals :=
  List.mem_filterMap.mpr ⟨_, h, rfl⟩

/-- The values of a body are legible when its names and decimals are read back. -/
theorem legible {e : TargetExpr} (hproper : (UnitBody.expression e).Proper)
    (hnames : ∀ n ∈ (UnitBody.expression e).names, n.ParsesBack)
    (hdecimals : ∀ d ∈ (UnitBody.expression e).decimals, (ofDecimal d).decimal? = some d) :
    ∀ v ∈ e.root.values, v.Legible := by
  intro v hv
  cases v with
  | decimal d => exact hdecimals d (mem_decimals hv)
  | record type fields =>
    exact ⟨hnames type (List.mem_filterMap.mpr ⟨_, hv, rfl⟩), hproper.1 _ hv⟩
  | _ => exact trivial

/-- A body is read back as it was where its names, its decimals and its depth admit it. -/
theorem reads_toJson {body : UnitBody} (hproper : body.Proper)
    (hnames : ∀ n ∈ body.names, n.ParsesBack)
    (hdecimals : ∀ d ∈ body.decimals, (ofDecimal d).decimal? = some d) :
    Reads UnitBody.ofJson? body.toJson body := by
  intro depth hdepth
  cases body with
  | expression e =>
    obtain ⟨inner, rfl, hcontent⟩ := depth_tagged_le.mp hdepth
    have hlegible := legible hproper hnames hdecimals
    have hread := TargetExpr.reads_toJson hlegible hproper.2 inner hcontent
    rw [UnitBody.ofJson?, UnitBody.toJson, alternative?_tagged]
    simp only [Option.bind_eq_bind, Option.bind_some, hread]
    rfl
  | script p =>
    obtain ⟨inner, rfl, hcontent⟩ := depth_tagged_le.mp hdepth
    rw [UnitBody.names, List.forall_mem_append] at hnames
    have hinputs : ∀ i ∈ p.inputs, ∀ n ∈ i.type.names, n.ParsesBack := fun i hi n hn =>
      hnames.1 n (List.mem_flatMap_of_mem hi hn)
    have hread := ScriptProgram.reads_toJson hinputs hnames.2 inner hcontent
    rw [UnitBody.ofJson?, UnitBody.toJson, alternative?_tagged]
    simp only [Option.bind_eq_bind, Option.bind_some, hread]
    rfl
  | record t =>
    obtain ⟨inner, rfl, hcontent⟩ := depth_tagged_le.mp hdepth
    rw [UnitBody.names, List.forall_mem_cons] at hnames
    have hfields : ∀ f ∈ t.fields, ∀ n ∈ f.type.names, n.ParsesBack := fun f hf n hn =>
      hnames.2 n (List.mem_flatMap_of_mem hf hn)
    have hread := RecordType.reads_toJson hnames.1 hfields inner hcontent
    rw [UnitBody.ofJson?, UnitBody.toJson, alternative?_tagged]
    simp only [Option.bind_eq_bind, Option.bind_some, hread]
    rfl

end UnitBody

/-- A payload is decoded to the body that it was encoded from. -/
theorem Payload.decode_encode_self {body : UnitBody} (hproper : body.Proper)
    (hnames : ∀ n ∈ body.names, n.ParsesBack)
    (hdecimals : ∀ d ∈ body.decimals, (ofDecimal d).decimal? = some d)
    (hdepth : body.toJson.depth ≤ depthLimit) : decode (encode body) = .ok body :=
  decode_encode.mpr (UnitBody.reads_toJson hproper hnames hdecimals depthLimit hdepth)

end Scriptorium

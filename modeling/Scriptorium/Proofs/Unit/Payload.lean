import Scriptorium.Proofs.Unit.Program
import Scriptorium.Unit.Compile

/-!
# Units read back from their payloads

The document of every unit is well spelled, so the text of a body is read back
as the document it was written from, and the envelope is opened to what was put
into it. A payload that is loaded therefore yields the body that was stored,
but for the decimal literals of an expression: these are read from their
numerals.
-/

namespace Scriptorium

open Json

theorem Json.spelled_ofDecimal (d : Decimal) : (ofDecimal d).Spelled := by
  unfold ofDecimal
  split
  · next numeral h => exact isNumeral_marked h
  · exact trivial

theorem Json.spelled_ofOption {α : Type} {g : α → Json} (h : ∀ a, (g a).Spelled) (o : Option α) :
    (ofOption g o).Spelled := by
  cases o with
  | none => exact trivial
  | some a => exact h a

/-- The documents of several parts are well spelled when each of them is. -/
theorem Json.spelled_map {α : Type} {g : α → Json} {as : List α} (h : ∀ a ∈ as, (g a).Spelled) :
    (Json.array (as.map g)).Spelled := by
  refine spelledItems_iff.mpr fun j hj => ?_
  obtain ⟨a, ha, rfl⟩ := List.mem_map.mp hj
  exact h a ha

theorem SemanticType.spelled_toJson (t : SemanticType) : t.toJson.Spelled := by
  cases t with
  | primitive k => exact spelled_ofText _
  | array => exact spelled_ofText _
  | record name => exact spelled_tagged (spelled_ofText _)

theorem Access.spelled_toJson (a : Access) : a.toJson.Spelled := by
  have hstep (s : Step) : s.toJson.Spelled := by
    cases s with
    | field name => exact spelled_tagged (spelled_ofText _)
    | index n => exact spelled_tagged (isNumeral_natDigits n)
  refine spelled_ofMembers fun m hm => ?_
  simp only [List.mem_cons, List.not_mem_nil, or_false] at hm
  rcases hm with rfl | rfl
  · exact spelled_ofText _
  · exact spelled_map fun s _ => hstep s

mutual

theorem Value.spelled_encode (v : Value) : v.encode.Spelled := by
  match v with
  | .null => exact spelled_ofText _
  | .integer n => exact spelled_tagged (isNumeral_intNumeral n.toInt)
  | .decimal d => exact spelled_tagged (spelled_ofDecimal d)
  | .boolean b => exact spelled_tagged trivial
  | .string s => exact spelled_tagged (spelled_ofText s)
  | .array items => exact spelled_tagged (Value.spelled_encodeItems items)
  | .record type fields =>
    refine spelled_tagged (spelled_ofMembers fun m hm => ?_)
    simp only [List.mem_cons, List.not_mem_nil, or_false] at hm
    rcases hm with rfl | rfl
    · exact spelled_ofText _
    · exact Value.spelled_encodeFields fields

theorem Value.spelled_encodeItems (vs : List Value) :
    (Json.array (Value.encodeItems vs)).Spelled := by
  match vs with
  | [] => exact trivial
  | v :: rest => exact ⟨v.spelled_encode, Value.spelled_encodeItems rest⟩

theorem Value.spelled_encodeFields (fields : List (String × Value)) :
    (Json.object (Value.encodeFields fields)).Spelled := by
  match fields with
  | [] => exact trivial
  | (_, v) :: rest => exact ⟨endsAtQuote_escape _, v.spelled_encode, Value.spelled_encodeFields rest⟩

end

theorem Node.spelled_toJson (n : Node) : n.toJson.Spelled := by
  induction n with
  | literal v => exact spelled_tagged v.spelled_encode
  | read access kind =>
    refine spelled_tagged (spelled_ofMembers fun m hm => ?_)
    simp only [List.mem_cons, List.not_mem_nil, or_false] at hm
    rcases hm with rfl | rfl
    · exact access.spelled_toJson
    · exact spelled_ofText _
  | reference access => exact spelled_tagged access.spelled_toJson
  | null => exact spelled_ofText _
  | binary op lhs rhs ihl ihr =>
    refine spelled_tagged (spelled_ofMembers fun m hm => ?_)
    simp only [List.mem_cons, List.not_mem_nil, or_false] at hm
    rcases hm with rfl | rfl | rfl
    · exact spelled_ofText _
    · exact ihl
    · exact ihr

theorem TargetExpr.spelled_toJson (e : TargetExpr) : e.toJson.Spelled := by
  refine spelled_ofMembers fun m hm => ?_
  simp only [List.mem_cons, List.not_mem_nil, or_false] at hm
  rcases hm with rfl | rfl
  · exact spelled_ofText _
  · exact e.root.spelled_toJson

theorem ExprRef.spelled_toJson (r : ExprRef) : r.toJson.Spelled := by
  refine spelled_ofMembers fun m hm => ?_
  simp only [List.mem_cons, List.not_mem_nil, or_false] at hm
  rcases hm with rfl | rfl <;> exact spelled_ofText _

theorem Condition.spelled_toJson (c : Condition) : c.toJson.Spelled := by
  refine spelled_ofMembers fun m hm => ?_
  simp only [List.mem_cons, List.not_mem_nil, or_false] at hm
  rcases hm with rfl | rfl | rfl | rfl
  · exact spelled_ofText _
  · exact c.left.spelled_toJson
  · exact c.right.spelled_toJson
  · exact spelled_ofOption spelled_ofText _

mutual

theorem Instruction.spelled_toJson (i : Instruction) : i.toJson.Spelled := by
  match i with
  | .declareInput name type =>
    refine spelled_tagged (spelled_ofMembers fun m hm => ?_)
    simp only [List.mem_cons, List.not_mem_nil, or_false] at hm
    rcases hm with rfl | rfl
    · exact spelled_ofText _
    · exact type.spelled_toJson
  | .declareLocal name type init =>
    refine spelled_tagged (spelled_ofMembers fun m hm => ?_)
    simp only [List.mem_cons, List.not_mem_nil, or_false] at hm
    rcases hm with rfl | rfl | rfl
    · exact spelled_ofText _
    · exact type.spelled_toJson
    · exact spelled_ofOption ExprRef.spelled_toJson _
  | .setLocal target value =>
    refine spelled_tagged (spelled_ofMembers fun m hm => ?_)
    simp only [List.mem_cons, List.not_mem_nil, or_false] at hm
    rcases hm with rfl | rfl
    · exact spelled_ofText _
    · exact value.spelled_toJson
  | .branch condition thenBranch elseBranch =>
    refine spelled_tagged (spelled_ofMembers fun m hm => ?_)
    simp only [List.mem_cons, List.not_mem_nil, or_false] at hm
    rcases hm with rfl | rfl | rfl
    · exact condition.spelled_toJson
    · exact Instruction.spelled_toJsonItems thenBranch
    · exact Instruction.spelled_toJsonItems elseBranch

theorem Instruction.spelled_toJsonItems (is : List Instruction) :
    (Json.array (Instruction.toJsonItems is)).Spelled := by
  match is with
  | [] => exact trivial
  | i :: rest => exact ⟨i.spelled_toJson, Instruction.spelled_toJsonItems rest⟩

end

theorem ScriptProgram.spelled_toJson (p : ScriptProgram) : p.toJson.Spelled := by
  have hinput (i : InputParameter) : i.toJson.Spelled := by
    refine spelled_ofMembers fun m hm => ?_
    simp only [List.mem_cons, List.not_mem_nil, or_false] at hm
    rcases hm with rfl | rfl
    · exact spelled_ofText _
    · exact i.type.spelled_toJson
  refine spelled_ofMembers fun m hm => ?_
  simp only [List.mem_cons, List.not_mem_nil, or_false] at hm
  rcases hm with rfl | rfl
  · exact spelled_map fun i _ => hinput i
  · exact Instruction.spelled_toJsonItems _

theorem RecordType.spelled_toJson (t : RecordType) : t.toJson.Spelled := by
  have hfield (f : FieldDefinition) : f.toJson.Spelled := by
    refine spelled_ofMembers fun m hm => ?_
    simp only [List.mem_cons, List.not_mem_nil, or_false] at hm
    rcases hm with rfl | rfl
    · exact spelled_ofText _
    · exact f.type.spelled_toJson
  refine spelled_ofMembers fun m hm => ?_
  simp only [List.mem_cons, List.not_mem_nil, or_false] at hm
  rcases hm with rfl | rfl
  · exact spelled_ofText _
  · exact spelled_map fun f _ => hfield f

namespace UnitBody

/-- Literals are of primitive types, and all names are readable. -/
def Readable : UnitBody → Prop
  | .expression e => e.root.Primitive
  | .script p => (∀ i ∈ p.inputs, i.type.Readable) ∧ Instruction.ReadableItems p.statements
  | .record t => t.name.Readable ∧ ∀ f ∈ t.fields, f.type.Readable

/-- The body with every decimal literal as its numeral denotes it in a document. -/
def reread : UnitBody → UnitBody
  | .expression e => .expression e.reread
  | body => body

@[simp] theorem kind_reread (body : UnitBody) : body.reread.kind = body.kind := by
  cases body <;> rfl

theorem spelled_toJson (body : UnitBody) : body.toJson.Spelled := by
  cases body with
  | expression e => exact spelled_tagged e.spelled_toJson
  | script p => exact spelled_tagged p.spelled_toJson
  | record t => exact spelled_tagged t.spelled_toJson

/-- A record type is read back under some name. -/
theorem ofJson?_record {depth : Nat} {t : RecordType} {loaded : UnitBody}
    (hl : ofJson? depth (UnitBody.record t).toJson = some loaded) :
    ∃ u, loaded = .record u ∧ ((∀ f ∈ t.fields, f.type.Readable) → u.fields = t.fields) := by
  cases depth with
  | zero => simp [ofJson?, toJson, alternative?_zero] at hl
  | succ depth =>
    rw [ofJson?, toJson, alternative?_tagged] at hl
    simp only [Option.bind_eq_bind, Option.bind_some] at hl
    obtain ⟨u, hu, hl⟩ := Option.bind_eq_some_iff.mp hl
    cases hl
    exact ⟨u, rfl, fun hfields => (RecordType.ofJson?_eq_some hfields hu).2⟩

theorem recordType?_eq_none {body : UnitBody} (h : body.kind ≠ .recordType) :
    body.recordType? = none := by
  cases body with
  | record t => exact absurd rfl h
  | _ => rfl

/-- A body is read back as one of its kind. -/
theorem kind_ofJson? {depth : Nat} {body loaded : UnitBody}
    (hl : ofJson? depth body.toJson = some loaded) : loaded.kind = body.kind := by
  cases depth with
  | zero => cases body <;> simp [ofJson?, toJson, alternative?_zero] at hl
  | succ depth =>
    cases body <;>
    · rw [ofJson?, toJson, alternative?_tagged] at hl
      simp only [Option.bind_eq_bind, Option.bind_some] at hl
      obtain ⟨_, -, hl⟩ := Option.bind_eq_some_iff.mp hl
      cases hl
      rfl

theorem ofJson?_toJson {depth : Nat} {body loaded : UnitBody} (h : body.Readable)
    (hl : ofJson? depth body.toJson = some loaded) : loaded = body.reread := by
  cases depth with
  | zero => cases body <;> simp [ofJson?, toJson, alternative?_zero] at hl
  | succ depth =>
    cases body with
    | expression e =>
      rw [ofJson?, toJson, alternative?_tagged] at hl
      simp only [Option.bind_eq_bind, Option.bind_some] at hl
      obtain ⟨f, hf, hl⟩ := Option.bind_eq_some_iff.mp hl
      cases hl
      rw [TargetExpr.ofJson?_toJson h hf]
      rfl
    | script p =>
      rw [ofJson?, toJson, alternative?_tagged] at hl
      simp only [Option.bind_eq_bind, Option.bind_some] at hl
      obtain ⟨q, hq, hl⟩ := Option.bind_eq_some_iff.mp hl
      cases hl
      rw [ScriptProgram.ofJson?_toJson h.1 h.2 hq]
      rfl
    | record t =>
      rw [ofJson?, toJson, alternative?_tagged] at hl
      simp only [Option.bind_eq_bind, Option.bind_some] at hl
      obtain ⟨u, hu, hl⟩ := Option.bind_eq_some_iff.mp hl
      cases hl
      rw [RecordType.ofJson?_toJson h.1 h.2 hu]
      rfl

end UnitBody

namespace Payload

theorem decodeBody?_bodyText (body : UnitBody) :
    decodeBody? (bodyText body) = UnitBody.ofJson? depthLimit body.toJson := by
  rw [decodeBody?, bodyText, String.toList_ofList, read?_write body.spelled_toJson]
  rfl

/-- An envelope is opened to what was put into it. -/
theorem open?_envelope (digest body : String) :
    open? (envelope format digest body) = some (format, digest, body) := by
  have hspelled : (ofMembers [("format", ofNat format), ("digest", ofText digest),
      ("body", ofText body)]).Spelled := by
    refine spelled_ofMembers fun m hm => ?_
    simp only [List.mem_cons, List.not_mem_nil, or_false] at hm
    rcases hm with rfl | rfl | rfl
    · exact isNumeral_natDigits format
    · exact spelled_ofText _
    · exact spelled_ofText _
  have hformat : (ofNat format).nat? UInt32.size = some format := rfl
  rw [open?, envelope, String.toList_ofList, read?_write hspelled]
  simp only [Option.bind_eq_bind, Option.bind_some]
  rw [show depthLimit = 126 + 1 from rfl, fields?_three _ _ _ _ (by decide)]
  simp only [Option.bind_some, hformat, text?_ofText]
  rfl

/-- Decoding a payload reads the document of its body. -/
theorem decode_encode {body loaded : UnitBody} :
    decode (encode body) = .ok loaded ↔ UnitBody.ofJson? depthLimit body.toJson = some loaded := by
  rw [decode, encode, open?_envelope, ← decodeBody?_bodyText]
  cases hbody : decodeBody? (bodyText body) <;> simp [hbody]

/-- What is loaded is what the payload decodes to, and is of the kind that the name denotes. A
record type has the name. -/
theorem load_eq_ok {name : QualifiedName} {payload : String} {loaded : UnitBody} :
    load name payload = .ok loaded ↔ decode payload = .ok loaded ∧ loaded.kind = name.kind ∧
      ∀ t, loaded = .record t → t.name = name := by
  unfold load
  cases decode payload with
  | error cause => exact ⟨nofun, fun h => nomatch h.1⟩
  | ok body =>
    by_cases hkind : body.kind = name.kind
    · simp only [bind, Except.bind, hkind, ne_eq, not_true_eq_false, if_false, pure, Except.pure]
      cases body with
      | record t =>
        by_cases hname : t.name = name
        · simp only [hname, not_true_eq_false, if_false, Except.ok.injEq]
          constructor
          · rintro rfl
            refine ⟨rfl, hkind, fun t' ht => ?_⟩
            obtain rfl := UnitBody.record.inj ht
            exact hname
          · exact fun h => h.1
        · simp only [hname, not_false_eq_true, if_true]
          refine ⟨nofun, fun h => absurd (h.2.2 t ?_) hname⟩
          exact (Except.ok.inj h.1).symm
      | _ =>
        simp only [Except.ok.injEq]
        constructor
        · rintro rfl
          exact ⟨rfl, hkind, nofun⟩
        · exact fun h => h.1
    · simp only [bind, Except.bind, hkind, ne_eq, not_false_eq_true, if_true]
      refine ⟨nofun, fun h => absurd ?_ hkind⟩
      obtain rfl := Except.ok.inj h.1
      exact h.2.1

/-- What a payload yields is what was stored, decimal literals as their numerals denote them. -/
theorem load_encode {name : QualifiedName} {body loaded : UnitBody} (h : body.Readable)
    (hl : load name (encode body) = .ok loaded) : loaded = body.reread := by
  exact UnitBody.ofJson?_toJson h (decode_encode.mp (load_eq_ok.mp hl).1)

end Payload

theorem CompiledUnit.load_eq_ok {u : CompiledUnit} {loaded : UnitBody} :
    u.load = .ok loaded ↔ Payload.load u.name u.payload = .ok loaded := by
  unfold load
  cases Payload.load u.name u.payload with
  | error fault => exact ⟨nofun, nofun⟩
  | ok b => exact ⟨fun h => by cases h; rfl, fun h => by cases h; rfl⟩

theorem CompiledUnit.load_ofBody_eq_ok {name : QualifiedName} {body loaded : UnitBody}
    {source : Option String} {inputs : Option InputManifest} :
    (ofBody name body source inputs).load = .ok loaded ↔
      Payload.load name (Payload.encode body) = .ok loaded := by
  unfold load ofBody
  cases Payload.load name (Payload.encode body) with
  | error fault => exact ⟨nofun, nofun⟩
  | ok b => exact ⟨fun h => by cases h; rfl, fun h => by cases h; rfl⟩

/-- A compiled unit that loads is of the kind that its name denotes, and a record type has its
name. -/
theorem CompiledUnit.kind_of_load {u : CompiledUnit} {loaded : UnitBody} (h : u.load = .ok loaded) :
    loaded.kind = u.name.kind ∧ ∀ t, loaded = .record t → t.name = u.name :=
  (Payload.load_eq_ok.mp (load_eq_ok.mp h)).2

/-- A compiled unit that loads yields its body, decimal literals as their numerals denote them. -/
theorem CompiledUnit.load_ofBody {name : QualifiedName} {body loaded : UnitBody}
    {source : Option String} {inputs : Option InputManifest} (h : body.Readable)
    (hl : (ofBody name body source inputs).load = .ok loaded) : loaded = body.reread :=
  Payload.load_encode h (load_ofBody_eq_ok.mp hl)

/-- A unit loads under a name that denotes its kind alone. -/
theorem CompiledUnit.kind_of_load_ofBody {name : QualifiedName} {body loaded : UnitBody}
    {source : Option String} {inputs : Option InputManifest}
    (hl : (ofBody name body source inputs).load = .ok loaded) :
    loaded.kind = body.kind ∧ name.kind = body.kind := by
  obtain ⟨hdecode, hkind, -⟩ := Payload.load_eq_ok.mp (load_ofBody_eq_ok.mp hl)
  have hsame := UnitBody.kind_ofJson? (Payload.decode_encode.mp hdecode)
  exact ⟨hsame, hkind.symm.trans hsame⟩

/-- A record type that loads is one of the unit's name with the fields that were compiled. -/
theorem CompiledUnit.load_record {name : QualifiedName} {t : RecordType} {loaded : UnitBody}
    {source : Option String} {inputs : Option InputManifest}
    (hfields : ∀ f ∈ t.fields, f.type.Readable)
    (hl : (ofBody name (.record t) source inputs).load = .ok loaded) :
    name.kind = .recordType ∧ loaded = .record ⟨name, t.fields⟩ := by
  obtain ⟨hdecode, hkind, hname⟩ := Payload.load_eq_ok.mp (load_ofBody_eq_ok.mp hl)
  obtain ⟨u, rfl, hsame⟩ := UnitBody.ofJson?_record (Payload.decode_encode.mp hdecode)
  have hfields' := hsame hfields
  have hname' : u.name = name := hname u rfl
  cases u
  cases hname'
  cases hfields'
  exact ⟨hkind.symm, rfl⟩

end Scriptorium

import Mathlib.Data.List.Forall2
import Mathlib.Data.List.Nodup
import Scriptorium.Proofs.Expression.Language
import Scriptorium.Proofs.Text.Blank
import Scriptorium.Proofs.Unit.Restoring
import Scriptorium.Proofs.Value.Built

/-!
# Fields of a record type as they are written

The fragments of a field list are what stands between semicolons and is not
blank. Each declares a field when it consists of two words, of which the first
denotes a type and the second is an identifier that no fragment before it has
taken. A list of such fragments compiles, with the fields in the order in which
they are written, and no other list does: the error is that of the first fragment
that declares no field, for the first reason that applies.
-/

namespace Scriptorium

/-- The names of the types other than those of records. -/
def SemanticType.builtin : List (String × SemanticType) :=
  [("Integer", .primitive .integer), ("Number", .primitive .integer),
    ("Decimal", .primitive .decimal), ("Boolean", .primitive .boolean),
    ("String", .primitive .string), ("Array", .array)]

/-! ## Record types and their documents -/

/-- A fresh record has the fields of its type, all of them null. -/
theorem RecordType.mem_freshFields {t : RecordType} (field : String) (v : Value) :
    (field, v) ∈ t.freshFields ↔ field ∈ t.fields.map (·.name) ∧ v = .null := by
  constructor
  · intro h
    obtain ⟨d, hd, heq⟩ := List.mem_map.mp (Entries.mem_ofList h)
    cases heq
    exact ⟨List.mem_map.mpr ⟨d, hd, rfl⟩, rfl⟩
  · rintro ⟨hfield, rfl⟩
    obtain ⟨d, hd, hname⟩ := List.mem_map.mp hfield
    exact Entries.mem_of_get? (Entries.get?_ofList_map ⟨d, hd, hname⟩)

theorem SemanticType.depth_toJson (t : SemanticType) : t.toJson.depth ≤ 1 := by
  cases t with
  | record name => exact Json.depth_tagged_le.mpr ⟨0, rfl, Nat.le_refl 0⟩
  | _ => exact Nat.zero_le 1

/-- The document of a record type is not nested deeply, however many fields there are. -/
theorem RecordType.depth_toJson (t : RecordType) : (UnitBody.record t).toJson.depth ≤ 5 := by
  refine Json.depth_tagged_le.mpr ⟨4, rfl, Json.depth_ofMembers_le.mpr ⟨3, rfl, ?_⟩⟩
  refine List.forall_mem_cons.mpr ⟨Nat.zero_le 3, List.forall_mem_singleton.mpr ?_⟩
  refine Json.depth_array_le.mpr ⟨2, rfl, List.forall_mem_map.mpr fun f _ => ?_⟩
  refine Json.depth_ofMembers_le.mpr ⟨1, rfl, ?_⟩
  exact List.forall_mem_cons.mpr ⟨Nat.zero_le 1,
    List.forall_mem_singleton.mpr (SemanticType.depth_toJson f.type)⟩

namespace Compile

open Text (Spaced IsWord)
open SemanticType (builtin)

/-- The word denotes the type in a field of the record type: a type other than those of records,
the record type itself, or a registered one. -/
inductive TypeNamed (types : Registry) (name : QualifiedName) (word : String) :
    SemanticType → Prop
  | builtin {type : SemanticType} (h : (word, type) ∈ builtin) : TypeNamed types name word type
  | own (h : word ∉ builtin.map Prod.fst) (hself : .record word = name) :
    TypeNamed types name word (.record name)
  | known (h : word ∉ builtin.map Prod.fst) {t : RecordType}
    (hknown : types (.record word) = .ok (some t)) :
    TypeNamed types name word (.record (.record word))

/-- The fragment is made of the name of a type and an identifier, the name of the field. -/
inductive Declares (types : Registry) (name : QualifiedName) (fragment : List Char) :
    FieldDefinition → Prop
  | intro {typeName field : List Char} {type : SemanticType}
    (hwords : Spaced [typeName, field] fragment) (hident : Text.isIdentifier field = true)
    (htype : TypeNamed types name (String.ofList typeName) type) :
    Declares types name fragment ⟨String.ofList field, type⟩

/-- The fragment declares no field where these names are taken, for the first reason that
applies: it is not made of a word and an identifier, the word denotes no type, or the identifier
is taken. -/
inductive Offends (types : Registry) (name : QualifiedName) (taken : List String)
    (fragment : List Char) : CompileError → Prop
  | malformed (h : ∀ typeName field, Spaced [typeName, field] fragment →
      Text.isIdentifier field = false) :
    Offends types name taken fragment
      (.invalidField name.humanName (String.ofList (Text.trim fragment)))
  | unknownType {typeName field : List Char} (hwords : Spaced [typeName, field] fragment)
    (hident : Text.isIdentifier field = true)
    (h : ∀ type, ¬TypeNamed types name (String.ofList typeName) type) :
    Offends types name taken fragment
      (.unknownFieldType name.humanName (String.ofList field) (String.ofList typeName))
  | duplicate {typeName field : List Char} {type : SemanticType}
    (hwords : Spaced [typeName, field] fragment) (hident : Text.isIdentifier field = true)
    (htype : TypeNamed types name (String.ofList typeName) type)
    (htaken : String.ofList field ∈ taken) :
    Offends types name taken fragment (.duplicateField name.humanName (String.ofList field))

/-- The fragments declare the fields, in this order and under different names. -/
structure Accepts (types : Registry) (name : QualifiedName) (parts : List (List Char))
    (defined : List FieldDefinition) : Prop where
  declared : List.Forall₂ (Declares types name) parts defined
  distinct : (defined.map (·.name)).Nodup

/-- The parts are what stands between the semicolons of a field list and is not blank. -/
def Fragments (spec : String) (parts : List (List Char)) : Prop :=
  ∃ first others, (∀ piece ∈ first :: others, ';' ∉ piece) ∧
    spec.toList = Text.joinWith [';'] (first, others) ∧
      parts = (first :: others).filter fun piece => ¬Text.Blanks piece

section Registered

variable {types : Registry} {name : QualifiedName}

/-! ## Types -/

theorem ofTypeName_builtin {word : String} {type : SemanticType} (h : (word, type) ∈ builtin) :
    SemanticType.ofTypeName word = type := by
  have hall : ∀ p ∈ builtin, SemanticType.ofTypeName p.1 = p.2 := by decide +kernel
  exact hall (word, type) h

theorem ofTypeName_record {word : List Char} (hword : IsWord word)
    (h : String.ofList word ∉ builtin.map Prod.fst) :
    SemanticType.ofTypeName (String.ofList word) = .record (.record (String.ofList word)) := by
  have htrim : Text.trimmed (String.ofList word) = String.ofList word := by
    rw [Text.trimmed, String.toList_ofList, Text.trim_of_solid hword.solid]
  unfold SemanticType.ofTypeName
  rw [htrim]
  split
  all_goals first
    | rfl
    | next heq => exact absurd (by rw [heq]; decide) h

theorem typeNamed_builtin_iff {word : String} {type other : SemanticType}
    (h : (word, type) ∈ builtin) : TypeNamed types name word other ↔ type = other := by
  have hbuiltin : word ∈ builtin.map Prod.fst := List.mem_map.mpr ⟨_, h, rfl⟩
  constructor
  · intro hnamed
    cases hnamed with
    | builtin hother => rw [← ofTypeName_builtin h, ofTypeName_builtin hother]
    | own hno => exact absurd hbuiltin hno
    | known hno => exact absurd hbuiltin hno
  · rintro rfl
    exact .builtin h

theorem typeNamed_self_iff {word : String} {type : SemanticType}
    (h : word ∉ builtin.map Prod.fst) (hself : .record word = name) :
    TypeNamed types name word type ↔ .record name = type := by
  constructor
  · intro hnamed
    cases hnamed with
    | builtin hmem => exact absurd (List.mem_map.mpr ⟨_, hmem, rfl⟩) h
    | own => rfl
    | known => rw [hself]
  · rintro rfl
    exact .own h hself

theorem typeNamed_other_iff {word : String} {type : SemanticType}
    (h : word ∉ builtin.map Prod.fst) (hself : .record word ≠ name) :
    TypeNamed types name word type ↔
      (∃ t, types (.record word) = .ok (some t)) ∧ .record (.record word) = type := by
  constructor
  · intro hnamed
    cases hnamed with
    | builtin hmem => exact absurd (List.mem_map.mpr ⟨_, hmem, rfl⟩) h
    | own _ heq => exact absurd heq hself
    | known _ hknown => exact ⟨⟨_, hknown⟩, rfl⟩
  · rintro ⟨⟨t, hknown⟩, rfl⟩
    exact .known h hknown

/-- Where all lookups are answered, the type of a field is the one that the word denotes, or none
when it denotes none. -/
theorem fieldType_run (name : QualifiedName) (hanswers : types.Answers) {word : List Char}
    (hword : IsWord word) :
    ∃ found, (fieldType name (String.ofList word)).run types = .ok found ∧
      ∀ type, found = some type ↔ TypeNamed types name (String.ofList word) type := by
  unfold fieldType
  by_cases hbuiltin : String.ofList word ∈ builtin.map Prod.fst
  · obtain ⟨⟨w, type⟩, hmem, hw⟩ := List.mem_map.mp hbuiltin
    obtain rfl : w = String.ofList word := hw
    refine ⟨some type, ?_, fun other => Option.some_inj.trans (typeNamed_builtin_iff hmem).symm⟩
    rw [ofTypeName_builtin hmem]
    cases type with
    | record record =>
      have hnone : ∀ p ∈ builtin, p.2.names = [] := by decide
      cases hnone _ hmem
    | _ => rfl
  · rw [ofTypeName_record hword hbuiltin]
    by_cases hself : QualifiedName.record (String.ofList word) = name
    · refine ⟨some (.record name), by simp [hself], fun type => ?_⟩
      exact Option.some_inj.trans (typeNamed_self_iff hbuiltin hself).symm
    · obtain ⟨answer, hanswer⟩ := hanswers (.record (String.ofList word))
      refine ⟨answer.map fun _ => .record (.record (String.ofList word)),
        by simp [hself, hanswer], fun type => ?_⟩
      rw [typeNamed_other_iff hbuiltin hself, hanswer]
      cases answer <;> simp

theorem TypeNamed.run (hanswers : types.Answers) {word : List Char} (hword : IsWord word)
    {type : SemanticType} (h : TypeNamed types name (String.ofList word) type) :
    (fieldType name (String.ofList word)).run types = .ok (some type) := by
  obtain ⟨found, hrun, hfound⟩ := fieldType_run name hanswers hword
  rw [hrun, (hfound type).mpr h]

/-! ## Fragments -/

theorem words_of_spaced {ws : List (List Char)} {fragment : List Char} (h : Spaced ws fragment) :
    Text.words (Text.trim fragment) = ws := (Text.words_trim fragment).trans h.words_eq

/-- A fragment declares its field where the name is free. -/
theorem field_declares (hanswers : types.Answers) {before : List FieldDefinition}
    {fragment : List Char} {f : FieldDefinition} (h : Declares types name fragment f)
    (hfree : f.name ∉ before.map (·.name)) :
    (field name before (Text.trim fragment)).run types = .ok f := by
  cases h with
  | @intro typeName fieldName type hwords hident htype =>
    have hrun := htype.run hanswers (hwords.isWord typeName List.mem_cons_self)
    have hany : before.any (·.name = String.ofList fieldName) = false := by
      simpa using hfree
    unfold field
    rw [words_of_spaced hwords]
    simp [hident, hrun, hany]

/-- A fragment that declares no field fails for the first reason that applies. -/
theorem field_offends (hanswers : types.Answers) {before : List FieldDefinition}
    {fragment : List Char} {e : CompileError}
    (h : Offends types name (before.map (·.name)) fragment e) :
    (field name before (Text.trim fragment)).run types = .error e := by
  unfold field
  cases h with
  | malformed h =>
    split
    · next typeName fieldName hwords =>
      rw [Text.words_trim] at hwords
      simp [h typeName fieldName (Text.words_eq_iff.mp hwords)]
    · rfl
  | @unknownType typeName fieldName hwords hident h =>
    obtain ⟨found, hrun, hfound⟩ :=
      fieldType_run name hanswers (hwords.isWord typeName List.mem_cons_self)
    obtain rfl : found = none :=
      Option.eq_none_iff_forall_ne_some.mpr fun type htype => h type ((hfound type).mp htype)
    rw [words_of_spaced hwords]
    simp [hident, hrun]
  | @duplicate typeName fieldName type hwords hident htype htaken =>
    have hrun := htype.run hanswers (hwords.isWord typeName List.mem_cons_self)
    have hany : before.any (·.name = String.ofList fieldName) = true := by
      simpa using htaken
    rw [words_of_spaced hwords]
    simp [hident, hrun, hany]

/-- A fragment declares a field under a free name, or it offends. -/
theorem declares_or_offends (types : Registry) (name : QualifiedName) (taken : List String)
    (fragment : List Char) :
    (∃ f, Declares types name fragment f ∧ f.name ∉ taken) ∨
      ∃ e, Offends types name taken fragment e := by
  by_cases hform : ∃ typeName field, Spaced [typeName, field] fragment ∧
      Text.isIdentifier field = true
  · obtain ⟨typeName, field, hwords, hident⟩ := hform
    by_cases hnamed : ∃ type, TypeNamed types name (String.ofList typeName) type
    · obtain ⟨type, htype⟩ := hnamed
      by_cases htaken : String.ofList field ∈ taken
      · exact .inr ⟨_, .duplicate hwords hident htype htaken⟩
      · exact .inl ⟨_, .intro hwords hident htype, htaken⟩
    · exact .inr ⟨_, .unknownType hwords hident (not_exists.mp hnamed)⟩
  · refine .inr ⟨_, .malformed fun typeName field hwords => ?_⟩
    cases hident : Text.isIdentifier field with
    | false => rfl
    | true => exact absurd ⟨typeName, field, hwords, hident⟩ hform

/-! ## Field lists -/

/-- Fragments that declare fields under free names add them to the fields before. -/
theorem fields_accepts (hanswers : types.Answers) (before : List FieldDefinition)
    {defined : List FieldDefinition} {parts : List (List Char)}
    (h : List.Forall₂ (Declares types name) parts defined)
    (hdistinct : ((before ++ defined).map (·.name)).Nodup) (rest : List (List Char)) :
    (fields name before (parts.map Text.trim ++ rest)).run types =
      (fields name (before ++ defined) rest).run types := by
  induction h generalizing before with
  | nil => simp
  | @cons part f parts defined hpart _ ih =>
    have hfree : f.name ∉ before.map (·.name) := by
      rw [List.map_append, List.map_cons, List.nodup_append] at hdistinct
      exact fun hmem => hdistinct.2.2 _ hmem _ List.mem_cons_self rfl
    rw [← List.singleton_append, ← List.append_assoc] at hdistinct
    have hfield := field_declares hanswers hpart hfree
    simp only [List.map_cons, List.cons_append, fields, Inquiry.run_bind, hfield]
    rw [ih _ hdistinct, List.append_assoc, List.singleton_append]

theorem Accepts.concat {parts : List (List Char)} {defined : List FieldDefinition}
    (h : Accepts types name parts defined) {last : List Char} {f : FieldDefinition}
    (hlast : Declares types name last f) (hfree : f.name ∉ defined.map (·.name)) :
    Accepts types name (parts ++ [last]) (defined ++ [f]) where
  declared := List.rel_append h.declared (.cons hlast .nil)
  distinct := by
    rw [List.map_append, List.map_singleton, ← List.concat_eq_append]
    exact h.distinct.concat hfree

/-- Fragments declare their fields, or one of them offends where all before it do. -/
theorem accepts_or_offends (types : Registry) (name : QualifiedName) (parts : List (List Char)) :
    (∃ defined, Accepts types name parts defined) ∨
      ∃ good bad rest defined e, parts = good ++ bad :: rest ∧ Accepts types name good defined ∧
        Offends types name (defined.map (·.name)) bad e := by
  induction parts using List.reverseRecOn with
  | nil => exact .inl ⟨[], .nil, List.nodup_nil⟩
  | append_singleton parts last ih =>
    rcases ih with ⟨defined, haccepts⟩ | ⟨good, bad, rest, defined, e, rfl, hgood, hbad⟩
    · rcases declares_or_offends types name (defined.map (·.name)) last with
        ⟨f, hdeclares, hfree⟩ | ⟨e, hoffends⟩
      · exact .inl ⟨_, haccepts.concat hdeclares hfree⟩
      · exact .inr ⟨parts, last, [], defined, e, rfl, haccepts, hoffends⟩
    · refine .inr ⟨good, bad, rest ++ [last], defined, e, ?_, hgood, hbad⟩
      simp

/-- The fragments that the compiler goes through are the parts of the field list, trimmed. -/
theorem fragments_eq {spec : String} {parts : List (List Char)} (h : Fragments spec parts) :
    fragments spec = parts.map Text.trim := by
  obtain ⟨first, others, hpieces, hspec, rfl⟩ := h
  have hsplit : Text.splitAt ';' spec.toList = (first, others) := by
    rw [hspec, Text.splitAt_joinWith hpieces]
  have hblank : (fun piece => !(Text.trim piece).isEmpty) =
      fun piece => decide ¬Text.Blanks piece := by
    funext piece
    rw [decide_not, ← decide_eq_decide.mpr Text.trim_eq_nil_iff]
    rw [Bool.not_inj_iff, Bool.eq_iff_iff, List.isEmpty_iff, decide_eq_true_iff]
  rw [fragments, hsplit]
  dsimp only
  rw [List.filter_map, ← hblank]
  rfl

theorem exists_fragments (spec : String) : ∃ parts, Fragments spec parts := by
  obtain ⟨hfirst, hothers⟩ := Text.not_mem_splitAt ';' spec.toList
  refine ⟨_, _, _, List.forall_mem_cons.mpr ⟨hfirst, hothers⟩, ?_, rfl⟩
  exact (Text.joinWith_splitAt ';' spec.toList).symm

/-! ## Compilation -/

theorem recordType_run (hname : name.isWellFormed = true) (spec : String) :
    (recordType name spec).run types =
      ((fields name [] (fragments spec)).run types).map fun defined =>
        .ofBody name (.record ⟨name, defined⟩) (some spec) none := by
  rw [recordType, checkName, if_pos hname]
  simp only [Inquiry.run_bind]
  cases (fields name [] (fragments spec)).run types <;> rfl

variable {spec : String} {parts : List (List Char)} {defined : List FieldDefinition}

/-- Fragments that are accepted determine the fields. -/
theorem Accepts.fields_run (h : Accepts types name parts defined) (hanswers : types.Answers)
    (hparts : Fragments spec parts) :
    (fields name [] (fragments spec)).run types = .ok defined := by
  have hfields := fields_accepts hanswers [] h.declared h.distinct []
  rw [List.append_nil] at hfields
  rw [fragments_eq hparts, hfields]
  rfl

theorem recordType_accepts (hanswers : types.Answers) (hname : name.isWellFormed = true)
    (hparts : Fragments spec parts) (h : Accepts types name parts defined) :
    (recordType name spec).run types =
      .ok (.ofBody name (.record ⟨name, defined⟩) (some spec) none) := by
  rw [recordType_run hname, h.fields_run hanswers hparts]
  rfl

theorem recordType_offends (hanswers : types.Answers) (hname : name.isWellFormed = true)
    {good rest : List (List Char)} {bad : List Char} {e : CompileError}
    (hparts : Fragments spec (good ++ bad :: rest)) (hgood : Accepts types name good defined)
    (hbad : Offends types name (defined.map (·.name)) bad e) :
    (recordType name spec).run types = .error e := by
  have hfields := fields_accepts hanswers [] hgood.declared hgood.distinct
    ((bad :: rest).map Text.trim)
  have hfield := field_offends hanswers hbad
  rw [recordType_run hname, fragments_eq hparts, List.map_append, hfields]
  simp only [List.nil_append, List.map_cons, fields, Inquiry.run_bind, hfield]
  rfl

/-! ## What is stored -/

theorem TypeNamed.parsesBack (hwell : types.WellFormed) (hname : name.ParsesBack) {word : String}
    {type : SemanticType} (h : TypeNamed types name word type) :
    ∀ n ∈ type.names, n.ParsesBack := by
  cases h with
  | builtin h =>
    have hnone : ∀ p ∈ SemanticType.builtin, p.2.names = [] := by decide
    rw [hnone (word, type) h]
    exact List.forall_mem_nil _
  | own => exact List.forall_mem_singleton.mpr hname
  | known _ hknown =>
    exact List.forall_mem_singleton.mpr
      ((QualifiedName.plain_record word).parsesBack (hwell _ _ hknown))

theorem Declares.parsesBack (hwell : types.WellFormed) (hname : name.ParsesBack)
    {fragment : List Char} {f : FieldDefinition} (h : Declares types name fragment f) :
    ∀ n ∈ f.type.names, n.ParsesBack := by
  cases h with
  | intro _ _ htype => exact htype.parsesBack hwell hname

theorem Declares.parsesBack_all (hwell : types.WellFormed) (hname : name.ParsesBack)
    (h : List.Forall₂ (Declares types name) parts defined) :
    ∀ f ∈ defined, ∀ n ∈ f.type.names, n.ParsesBack := by
  induction h with
  | nil => exact List.forall_mem_nil _
  | cons hpart _ ih => exact List.forall_mem_cons.mpr ⟨hpart.parsesBack hwell hname, ih⟩

/-- Over well-formed record types, the record type is read back from the unit that stores it. -/
theorem Accepts.load (h : Accepts types name parts defined) (hwell : types.WellFormed)
    (hkind : name.kind = .recordType) (hname : name.ParsesBack) :
    (CompiledUnit.ofBody name (.record ⟨name, defined⟩) (some spec) none).load =
      .ok (.record ⟨name, defined⟩) := by
  have hfields := Declares.parsesBack_all hwell hname h.declared
  have hnames : ∀ n ∈ (UnitBody.record ⟨name, defined⟩).names, n.ParsesBack := by
    refine List.forall_mem_cons.mpr ⟨hname, fun n hn => ?_⟩
    obtain ⟨f, hf, hn⟩ := List.mem_flatMap.mp hn
    exact hfields f hf n hn
  refine CompiledUnit.load_ofBody_eq_ok.mpr (Payload.load_eq_ok.mpr ⟨?_, hkind.symm, ?_⟩)
  · exact Payload.decode_encode_self trivial hnames nofun
      (Nat.le_trans (RecordType.depth_toJson _) (by decide))
  · intro t ht
    rw [← UnitBody.record.inj ht]

/-- Where all lookups are answered, a field list compiles exactly when its fragments declare
fields under different names, and the unit stores these fields in the order in which they are
written; the record type is read back from the unit, and a fresh record has exactly these fields,
all null. Otherwise the error is that of the first fragment that declares no field behind the
fields of those before it. -/
theorem recordType_exact (hanswers : types.Answers) (hname : name.isWellFormed = true)
    (spec : String) :
    ∃ parts, Fragments spec parts ∧
      (∀ u, (recordType name spec).run types = .ok u ↔
        ∃ defined, Accepts types name parts defined ∧
          u = .ofBody name (.record ⟨name, defined⟩) (some spec) none) ∧
      (∀ e, (recordType name spec).run types = .error e ↔
        ∃ good bad rest defined, parts = good ++ bad :: rest ∧ Accepts types name good defined ∧
          Offends types name (defined.map (·.name)) bad e) ∧
      ∀ defined, Accepts types name parts defined →
        (types.WellFormed → name.kind = .recordType → name.ParsesBack →
          (CompiledUnit.ofBody name (.record ⟨name, defined⟩) (some spec) none).load =
            .ok (.record ⟨name, defined⟩)) ∧
        ∃ fields, RecordType.instantiate ⟨name, defined⟩ = .record name fields ∧
          Entries.Sorted fields ∧
            ∀ field v, (field, v) ∈ fields ↔ field ∈ defined.map (·.name) ∧ v = .null := by
  obtain ⟨parts, hparts⟩ := exists_fragments spec
  refine ⟨parts, hparts, fun u => ⟨fun h => ?_, ?_⟩, fun e => ⟨fun h => ?_, ?_⟩,
    fun defined h => ⟨fun hwell hkind hback => h.load hwell hkind hback, _, rfl,
      Entries.sorted_ofList _, RecordType.mem_freshFields⟩⟩
  · rcases accepts_or_offends types name parts with
      ⟨defined, haccepts⟩ | ⟨good, bad, rest, defined, e, rfl, hgood, hbad⟩
    · rw [recordType_accepts hanswers hname hparts haccepts] at h
      exact ⟨defined, haccepts, (Except.ok.inj h).symm⟩
    · rw [recordType_offends hanswers hname hparts hgood hbad] at h
      cases h
  · rintro ⟨defined, haccepts, rfl⟩
    exact recordType_accepts hanswers hname hparts haccepts
  · rcases accepts_or_offends types name parts with
      ⟨defined, haccepts⟩ | ⟨good, bad, rest, defined, e', rfl, hgood, hbad⟩
    · rw [recordType_accepts hanswers hname hparts haccepts] at h
      cases h
    · rw [recordType_offends hanswers hname hparts hgood hbad] at h
      exact ⟨good, bad, rest, defined, rfl, hgood, (Except.error.inj h) ▸ hbad⟩
  · rintro ⟨good, bad, rest, defined, rfl, hgood, hbad⟩
    exact recordType_offends hanswers hname hparts hgood hbad

end Registered

/-- Blank fragments and spacing do not matter, and a type may refer to itself; of two fragments
that declare nothing, the first one is reported. -/
theorem recordType_exact_salesOrder :
    let types := Registry.ofTypes [⟨.record "Customer", []⟩]
    let order := QualifiedName.record "Sales::Order"
    let spec := "Number Total;;\tSales::Order Next ; Customer\n Buyer; "
    let defined : List FieldDefinition :=
      [⟨"Total", .primitive .integer⟩, ⟨"Next", .record order⟩,
        ⟨"Buyer", .record (.record "Customer")⟩]
    types.Answers ∧ order.isWellFormed = true ∧
      (∃ parts u, Fragments spec parts ∧ Accepts types order parts defined ∧
        (recordType order spec).run types = .ok u ∧ u.load = .ok (.record ⟨order, defined⟩)) ∧
      ∃ good bad rest taken,
        Fragments "Number Total; Customer Total; Widget" (good ++ bad :: rest) ∧
          Accepts types order good taken ∧
            Offends types order (taken.map (·.name)) bad (.duplicateField "Order" "Total") := by
  intro types order spec defined
  have hanswers : types.Answers := fun _ => ⟨_, rfl⟩
  have hname : order.isWellFormed = true := by decide +kernel
  have hwell : types.WellFormed := by
    intro name t ht
    obtain rfl : t = ⟨.record "Customer", []⟩ := by
      simpa using List.mem_of_find?_eq_some (Except.ok.inj ht)
    rw [← Registry.named_ofTypes _ name _ ht]
    decide +kernel
  have hrun : (recordType order spec).run types =
      .ok (.ofBody order (.record ⟨order, defined⟩) (some spec) none) := by
    unfold types order spec defined
    rfl
  have herror : (recordType order "Number Total; Customer Total; Widget").run types =
      .error (.duplicateField "Order" "Total") := by
    unfold types order
    rfl
  refine ⟨hanswers, hname, ?_, ?_⟩
  · obtain ⟨parts, hparts, hok, -, hstored⟩ := recordType_exact hanswers hname spec
    obtain ⟨found, haccepts, -⟩ := (hok _).mp hrun
    have hfields : (fields order [] (fragments spec)).run types = .ok defined := by
      unfold types order spec defined
      rfl
    obtain rfl : found = defined :=
      Except.ok.inj ((haccepts.fields_run hanswers hparts).symm.trans hfields)
    have hback : order.ParsesBack := by decide +kernel
    have hload := (hstored defined haccepts).1 hwell rfl hback
    exact ⟨parts, _, hparts, haccepts, hrun, hload⟩
  · obtain ⟨parts, hparts, -, herr, -⟩ := recordType_exact hanswers hname _
    obtain ⟨good, bad, rest, taken, rfl, hgood, hbad⟩ := (herr _).mp herror
    exact ⟨good, bad, rest, taken, hparts, hgood, hbad⟩

end Compile

end Scriptorium

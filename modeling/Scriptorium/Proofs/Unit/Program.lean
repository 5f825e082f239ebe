import Scriptorium.Proofs.Name.Segments
import Scriptorium.Proofs.Unit.Reread

/-!
# Programs and record types read back from documents

A program or a record type all of whose names are readable is read back as it
was: whatever is read back at all is the same again. A name that is not well
formed is not read back, and what is nested too deeply is not either.
-/

namespace Scriptorium

open Json

theorem QualifiedName.ofJson?_toJson {n m : QualifiedName} (h : n.Readable)
    (hm : QualifiedName.ofJson? n.toJson = some m) : m = n := by
  rw [QualifiedName.ofJson?, QualifiedName.toJson, text?_ofText, Option.bind_some] at hm
  exact h m hm

/-- The record type, if it is one of records, has a readable name. -/
def SemanticType.Readable : SemanticType → Prop
  | .record name => name.Readable
  | _ => True

theorem SemanticType.readable_ofTypeName (name : String) : (SemanticType.ofTypeName name).Readable := by
  unfold SemanticType.ofTypeName
  split <;> first | exact trivial | exact QualifiedName.readable_record _

theorem SemanticType.ofJson?_toJson {depth : Nat} {t u : SemanticType} (h : t.Readable)
    (hu : SemanticType.ofJson? depth t.toJson = some u) : u = t := by
  cases t with
  | primitive k =>
    rw [SemanticType.ofJson?, SemanticType.toJson, PrimitiveKind.toJson, alternative?_tag] at hu
    simp only [Option.bind_eq_bind, Option.bind_some, Alternative.tag?] at hu
    cases k <;> exact (Option.some.inj hu).symm
  | array =>
    rw [SemanticType.ofJson?, SemanticType.toJson, alternative?_tag] at hu
    simp only [Option.bind_eq_bind, Option.bind_some, Alternative.tag?] at hu
    exact (Option.some.inj hu).symm
  | record name =>
    cases depth with
    | zero => simp [SemanticType.ofJson?, SemanticType.toJson, alternative?_zero] at hu
    | succ depth =>
      rw [SemanticType.ofJson?, SemanticType.toJson, alternative?_tagged] at hu
      simp only [Option.bind_eq_bind, Option.bind_some] at hu
      obtain ⟨m, hm, hu⟩ := Option.bind_eq_some_iff.mp hu
      cases hu
      rw [QualifiedName.ofJson?_toJson h hm]

theorem ExprRef.ofJson?_toJson {depth : Nat} {r s : ExprRef} (h : r.name.Readable)
    (hs : ExprRef.ofJson? depth r.toJson = some s) : s = r := by
  cases depth with
  | zero => simp [ExprRef.ofJson?, fields?_zero] at hs
  | succ depth =>
    rw [ExprRef.ofJson?, ExprRef.toJson, fields?_two _ _ _ (by decide)] at hs
    simp only [Option.bind_eq_bind, Option.bind_some, text?_ofText] at hs
    obtain ⟨m, hm, hs⟩ := Option.bind_eq_some_iff.mp hs
    cases hs
    rw [QualifiedName.ofJson?_toJson h hm]

/-- What may be absent is read back, where nothing that is there is written as null. -/
theorem Json.option?_ofOption {α : Type} {f : Json → Option α} {g : α → Json} {o p : Option α}
    (hnull : ∀ a, g a ≠ .null) (h : ∀ a ∈ o, ∀ b, f (g a) = some b → b = a)
    (hp : option? f (some (ofOption g o)) = some p) : p = o := by
  cases o with
  | none =>
    cases hp
    rfl
  | some a =>
    unfold ofOption option? at hp
    split at hp
    · next heq => cases heq
    · next heq => exact absurd (Option.some.inj heq) (hnull a)
    · next heq =>
      obtain rfl := Option.some.inj heq
      obtain ⟨b, hb, rfl⟩ := Option.map_eq_some_iff.mp hp
      rw [h a rfl b hb]

theorem ExprRef.toJson_ne_null (r : ExprRef) : r.toJson ≠ .null := by
  simp [ExprRef.toJson, ofMembers]

theorem Comparison.ofJson?_tag (depth : Nat) (c : Comparison) :
    Comparison.ofJson? depth (tag c.name) = some c := by
  rw [Comparison.ofJson?, oneOf?_tag]
  cases c <;> rfl

theorem Condition.ofJson?_toJson {depth : Nat} {c d : Condition}
    (hleft : c.left.name.Readable) (hright : c.right.name.Readable)
    (hd : Condition.ofJson? depth c.toJson = some d) : d = c := by
  cases depth with
  | zero => simp [Condition.ofJson?, fields?_zero] at hd
  | succ depth =>
    rw [Condition.ofJson?, Condition.toJson, fields?_four _ _ _ _ _ (by decide)] at hd
    simp only [Option.bind_eq_bind, Option.bind_some, Comparison.ofJson?_tag] at hd
    obtain ⟨left, hl, hd⟩ := Option.bind_eq_some_iff.mp hd
    obtain ⟨right, hr, hd⟩ := Option.bind_eq_some_iff.mp hd
    obtain ⟨description, ho, hd⟩ := Option.bind_eq_some_iff.mp hd
    cases hd
    have hdescription := option?_ofOption (by simp [ofText])
      (fun s _ t ht => by rw [text?_ofText] at ht; exact (Option.some.inj ht).symm) ho
    rw [ExprRef.ofJson?_toJson hleft hl, ExprRef.ofJson?_toJson hright hr, hdescription]

mutual

/-- All names in an instruction are readable. -/
def Instruction.Readable : Instruction → Prop
  | .declareInput _ type => type.Readable
  | .declareLocal _ type init => type.Readable ∧ ∀ ref ∈ init, ref.name.Readable
  | .setLocal _ value => value.name.Readable
  | .branch condition thenBranch elseBranch =>
    condition.left.name.Readable ∧ condition.right.name.Readable ∧
      Instruction.ReadableItems thenBranch ∧ Instruction.ReadableItems elseBranch

/-- All names in several instructions are readable. -/
def Instruction.ReadableItems : List Instruction → Prop
  | [] => True
  | i :: rest => i.Readable ∧ Instruction.ReadableItems rest

end

/-- The second instruction is the first one with each part read back by itself. -/
inductive Instruction.RereadAs : Instruction → Instruction → Prop
  | declareInput {depth : Nat} {name : String} {type u : SemanticType}
    (htype : SemanticType.ofJson? depth type.toJson = some u) :
    RereadAs (.declareInput name type) (.declareInput name u)
  | declareLocal {depth : Nat} {name : String} {type u : SemanticType} {init o : Option ExprRef}
    (htype : SemanticType.ofJson? depth type.toJson = some u)
    (hinit : option? (ExprRef.ofJson? depth) (some (ofOption ExprRef.toJson init)) = some o) :
    RereadAs (.declareLocal name type init) (.declareLocal name u o)
  | setLocal {depth : Nat} {target : String} {value ref : ExprRef}
    (hvalue : ExprRef.ofJson? depth value.toJson = some ref) :
    RereadAs (.setLocal target value) (.setLocal target ref)
  | branch {outer depth : Nat} {condition c : Condition}
    {thenBranch elseBranch is js : List Instruction}
    (hcondition : Condition.ofJson? outer condition.toJson = some c)
    (hthen : (Instruction.toJsonItems thenBranch).mapM (Instruction.ofJson? depth) = some is)
    (helse : (Instruction.toJsonItems elseBranch).mapM (Instruction.ofJson? depth) = some js) :
    RereadAs (.branch condition thenBranch elseBranch) (.branch c is js)

/-- An instruction is read back part by part. -/
theorem Instruction.rereadAs {i j : Instruction} {depth : Nat}
    (hj : Instruction.ofJson? depth i.toJson = some j) : i.RereadAs j := by
  cases depth with
  | zero => cases i <;> simp [Instruction.ofJson?, Instruction.toJson, alternative?_zero] at hj
  | succ depth =>
    rw [Instruction.ofJson?] at hj
    cases i with
    | declareInput name type =>
      rw [Instruction.toJson, alternative?_tagged] at hj
      simp only [Option.bind_eq_bind, Option.bind_some] at hj
      cases depth with
      | zero => simp [fields?_zero] at hj
      | succ depth =>
        rw [fields?_two _ _ _ (by decide)] at hj
        simp only [Option.bind_some, text?_ofText] at hj
        obtain ⟨u, hu, hj⟩ := Option.bind_eq_some_iff.mp hj
        cases hj
        exact .declareInput hu
    | declareLocal name type init =>
      rw [Instruction.toJson, alternative?_tagged] at hj
      simp only [Option.bind_eq_bind, Option.bind_some] at hj
      cases depth with
      | zero => simp [fields?_zero] at hj
      | succ depth =>
        rw [fields?_three _ _ _ _ (by decide)] at hj
        simp only [Option.bind_some, text?_ofText] at hj
        obtain ⟨u, hu, hj⟩ := Option.bind_eq_some_iff.mp hj
        obtain ⟨o, ho, hj⟩ := Option.bind_eq_some_iff.mp hj
        cases hj
        exact .declareLocal hu ho
    | setLocal target value =>
      rw [Instruction.toJson, alternative?_tagged] at hj
      simp only [Option.bind_eq_bind, Option.bind_some] at hj
      cases depth with
      | zero => simp [fields?_zero] at hj
      | succ depth =>
        rw [fields?_two _ _ _ (by decide)] at hj
        simp only [Option.bind_some, text?_ofText] at hj
        obtain ⟨ref, href, hj⟩ := Option.bind_eq_some_iff.mp hj
        cases hj
        exact .setLocal href
    | branch condition thenBranch elseBranch =>
      rw [Instruction.toJson, alternative?_tagged] at hj
      simp only [Option.bind_eq_bind, Option.bind_some] at hj
      cases depth with
      | zero => simp [fields?_zero] at hj
      | succ depth =>
        rw [fields?_three _ _ _ _ (by decide)] at hj
        simp only [Option.bind_some] at hj
        obtain ⟨c, hc, hj⟩ := Option.bind_eq_some_iff.mp hj
        cases depth with
        | zero => cases hj
        | succ depth =>
          obtain ⟨is, his, hj⟩ := Option.bind_eq_some_iff.mp hj
          obtain ⟨js, hjs, hj⟩ := Option.bind_eq_some_iff.mp hj
          cases hj
          exact .branch hc his hjs

/-- Instructions are read back one by one. -/
theorem Instruction.rereadItems {i : Instruction} {rest js : List Instruction} {depth : Nat}
    (hjs : (Instruction.toJsonItems (i :: rest)).mapM (Instruction.ofJson? depth) = some js) :
    ∃ j others, Instruction.ofJson? depth i.toJson = some j ∧
      (Instruction.toJsonItems rest).mapM (Instruction.ofJson? depth) = some others ∧
      js = j :: others := by
  rw [Instruction.toJsonItems, List.mapM_cons] at hjs
  obtain ⟨j, hj, hjs⟩ := Option.bind_eq_some_iff.mp hjs
  obtain ⟨others, hothers, hjs⟩ := Option.bind_eq_some_iff.mp hjs
  cases hjs
  exact ⟨j, others, hj, hothers, rfl⟩

mutual

/-- An instruction with readable names is read back as it is. -/
theorem Instruction.ofJson?_toJson (i : Instruction) (h : i.Readable) {depth : Nat} {j : Instruction}
    (hj : Instruction.ofJson? depth i.toJson = some j) : j = i := by
  match i with
  | .declareInput name type =>
    cases rereadAs hj with
    | declareInput htype => rw [SemanticType.ofJson?_toJson h htype]
  | .declareLocal name type init =>
    cases rereadAs hj with
    | declareLocal htype hinit =>
      have hsame := option?_ofOption ExprRef.toJson_ne_null
        (fun ref href _ hs => ExprRef.ofJson?_toJson (h.2 ref href) hs) hinit
      rw [SemanticType.ofJson?_toJson h.1 htype, hsame]
  | .setLocal target value =>
    cases rereadAs hj with
    | setLocal hvalue => rw [ExprRef.ofJson?_toJson h hvalue]
  | .branch condition thenBranch elseBranch =>
    obtain ⟨hleft, hright, hreadThen, hreadElse⟩ := h
    cases rereadAs hj with
    | branch hcondition hthen helse =>
      rw [Condition.ofJson?_toJson hleft hright hcondition,
        Instruction.ofJson?_toJsonItems thenBranch hreadThen hthen,
        Instruction.ofJson?_toJsonItems elseBranch hreadElse helse]

theorem Instruction.ofJson?_toJsonItems (is : List Instruction) (h : Instruction.ReadableItems is)
    {depth : Nat} {js : List Instruction}
    (hjs : (Instruction.toJsonItems is).mapM (Instruction.ofJson? depth) = some js) : js = is := by
  match is with
  | [] =>
    cases hjs
    rfl
  | i :: rest =>
    obtain ⟨j, others, hj, hothers, rfl⟩ := rereadItems hjs
    rw [Instruction.ofJson?_toJson i h.1 hj, Instruction.ofJson?_toJsonItems rest h.2 hothers]

end

theorem InputParameter.ofJson?_toJson {depth : Nat} {p q : InputParameter} (h : p.type.Readable)
    (hq : InputParameter.ofJson? depth p.toJson = some q) : q = p := by
  cases depth with
  | zero => simp [InputParameter.ofJson?, fields?_zero] at hq
  | succ depth =>
    rw [InputParameter.ofJson?, InputParameter.toJson, fields?_two _ _ _ (by decide)] at hq
    simp only [Option.bind_eq_bind, Option.bind_some, text?_ofText] at hq
    obtain ⟨u, hu, hq⟩ := Option.bind_eq_some_iff.mp hq
    cases hq
    rw [SemanticType.ofJson?_toJson h hu]

/-- Reading a program back keeps readable inputs, and reads its instructions back. -/
theorem ScriptProgram.rereadParts {depth : Nat} {p q : ScriptProgram}
    (hinputs : ∀ i ∈ p.inputs, i.type.Readable)
    (hq : ScriptProgram.ofJson? depth p.toJson = some q) :
    q.inputs = p.inputs ∧ ∃ inner,
      (Instruction.toJsonItems p.statements).mapM (Instruction.ofJson? inner) = some q.statements := by
  cases depth with
  | zero => simp [ScriptProgram.ofJson?, fields?_zero] at hq
  | succ depth =>
    rw [ScriptProgram.ofJson?, ScriptProgram.toJson, fields?_two _ _ _ (by decide)] at hq
    simp only [Option.bind_eq_bind, Option.bind_some] at hq
    obtain ⟨⟨inputs, inner⟩, hi, hq⟩ := Option.bind_eq_some_iff.mp hq
    obtain ⟨⟨statements, rest⟩, hs, hq⟩ := Option.bind_eq_some_iff.mp hq
    obtain ⟨rfl, -⟩ := items?_array hi
    obtain ⟨rfl, -⟩ := items?_array hs
    obtain ⟨is, his, hq⟩ := Option.bind_eq_some_iff.mp hq
    obtain ⟨ss, hss, hq⟩ := Option.bind_eq_some_iff.mp hq
    cases hq
    have hread := mapM_map id (fun i hi _ hq => InputParameter.ofJson?_toJson (hinputs i hi) hq) his
    rw [List.map_id] at hread
    exact ⟨hread, inner, hss⟩

/-- A program with readable names is read back as it is. -/
theorem ScriptProgram.ofJson?_toJson {depth : Nat} {p q : ScriptProgram}
    (hinputs : ∀ i ∈ p.inputs, i.type.Readable) (hstatements : Instruction.ReadableItems p.statements)
    (hq : ScriptProgram.ofJson? depth p.toJson = some q) : q = p := by
  obtain ⟨hsame, inner, hread⟩ := rereadParts hinputs hq
  have hstatements := Instruction.ofJson?_toJsonItems _ hstatements hread
  obtain ⟨inputs, statements⟩ := p
  obtain ⟨inputs', statements'⟩ := q
  dsimp only at hsame hstatements
  rw [hsame, hstatements]

theorem FieldDefinition.ofJson?_toJson {depth : Nat} {f g : FieldDefinition} (h : f.type.Readable)
    (hg : FieldDefinition.ofJson? depth f.toJson = some g) : g = f := by
  cases depth with
  | zero => simp [FieldDefinition.ofJson?, fields?_zero] at hg
  | succ depth =>
    rw [FieldDefinition.ofJson?, FieldDefinition.toJson, fields?_two _ _ _ (by decide)] at hg
    simp only [Option.bind_eq_bind, Option.bind_some, text?_ofText] at hg
    obtain ⟨u, hu, hg⟩ := Option.bind_eq_some_iff.mp hg
    cases hg
    rw [SemanticType.ofJson?_toJson h hu]

/-- A record type whose fields have readable names is read back with the same fields, and its name is
read by itself. -/
theorem RecordType.ofJson?_eq_some {depth : Nat} {t u : RecordType}
    (hfields : ∀ f ∈ t.fields, f.type.Readable) (hu : RecordType.ofJson? depth t.toJson = some u) :
    QualifiedName.ofJson? t.name.toJson = some u.name ∧ u.fields = t.fields := by
  cases depth with
  | zero => simp [RecordType.ofJson?, fields?_zero] at hu
  | succ depth =>
    rw [RecordType.ofJson?, RecordType.toJson, fields?_two _ _ _ (by decide)] at hu
    simp only [Option.bind_eq_bind, Option.bind_some] at hu
    obtain ⟨⟨fields, inner⟩, hf, hu⟩ := Option.bind_eq_some_iff.mp hu
    obtain ⟨rfl, -⟩ := items?_array hf
    obtain ⟨name, hn, hu⟩ := Option.bind_eq_some_iff.mp hu
    obtain ⟨fs, hfs, hu⟩ := Option.bind_eq_some_iff.mp hu
    cases hu
    have hread := mapM_map id (fun f hf _ hg => FieldDefinition.ofJson?_toJson (hfields f hf) hg) hfs
    rw [List.map_id] at hread
    exact ⟨hn, hread⟩

/-- A record type with readable names is read back as it is. -/
theorem RecordType.ofJson?_toJson {depth : Nat} {t u : RecordType} (hname : t.name.Readable)
    (hfields : ∀ f ∈ t.fields, f.type.Readable) (hu : RecordType.ofJson? depth t.toJson = some u) :
    u = t := by
  obtain ⟨hn, hread⟩ := RecordType.ofJson?_eq_some hfields hu
  have hsame := QualifiedName.ofJson?_toJson hname hn
  cases u
  cases hsame
  cases hread
  rfl

end Scriptorium

import Scriptorium.Expression.Translation
import Scriptorium.Run.Report
import Scriptorium.Script.Statement
import Scriptorium.Target.Parser

/-!
# Direct interpretation of statements

Statements can be carried out as they are written, one after the other, without
units, names and caches. Each text in the place of an expression is evaluated
with a tree of its own, which depends on the declarations in front of that
place. These are all the declarations above it in the script, on either side of
a branch, whether or not the run has come past them.
-/

namespace Scriptorium.Interpretation

/-- Why an interpretation stops early: as a run does, or at something that is not compiled. -/
inductive Stop where
  | failed (cause : ExecutionError)
  | meaningless

/-- What an interpretation leads to. -/
abbrev Meaning := Except Stop

/-- The trees of texts over declarations. -/
abbrev Trees := VariableTable → String → Option TargetExpr

/-- The tree of the target code that a text is translated to. -/
def written (types : Registry) : Trees := fun declared text =>
  match (Expression.translate declared text).run types with
  | .error _ => none
  | .ok code => (Target.parseTarget code.text.toList).toOption

/-- The declarations behind a call. -/
def declaredByCall (declared : VariableTable) (c : Call) : VariableTable :=
  match c.name, c.args with
  | "DeclareInputVar", name :: type :: _ => (declared.declareInput name (.ofTypeName type)).2
  | "DeclareLocalVar", name :: type :: _ => (declared.declareLocal name (.ofTypeName type)).2
  | _, _ => declared

mutual

/-- The declarations behind a statement. -/
def declaredBy (declared : VariableTable) : Statement → VariableTable
  | .call c => declaredByCall declared c
  | .branch _ thenBranch elseBranch =>
    declaredByAll (declaredByAll declared thenBranch) elseBranch

/-- The declarations behind several statements. -/
def declaredByAll (declared : VariableTable) : List Statement → VariableTable
  | [] => declared
  | s :: rest => declaredByAll (declaredBy declared s) rest

end

/-- An outcome of an operation on variables. -/
def onTable : TableOutcome → Meaning VariableTable
  | (.ok (), t) => .ok t
  | (.error cause, _) => .error (.failed (.binding cause))

/-- The comparison that a call of this name makes. -/
def comparison? (name : String) : Option Comparison :=
  if name = Comparison.equal.callName then some .equal
  else if name = Comparison.lessOrEqual.callName then some .lessOrEqual
  else none

/-- Compares the values of two texts. -/
def compareValues (comparison : Comparison) (leftText rightText : String) (left right : Value) :
    Meaning Bool :=
  match comparison with
  | .equal => .ok (left.equal right)
  | .lessOrEqual =>
    match left.compare? right with
    | some order => .ok (order ≠ .gt)
    | none =>
      .error (.failed (.evaluation s!"{leftText} <= {rightText}"
        (.incomparable left.text right.text)))

section

variable (types : Registry) (trees : Trees)

/-- The value of a text behind declarations. -/
def value (declared t : VariableTable) (text : String) : Meaning Value :=
  match trees declared text with
  | none => .error .meaningless
  | some tree => (Evaluate.expr t tree).mapError fun cause => .failed (.evaluation text cause)

/-- Decides a condition. -/
def test (declared t : VariableTable) (c : Call) : Meaning Bool :=
  match comparison? c.name, c.args with
  | some comparison, leftText :: rightText :: _ => do
    let left ← value trees declared t leftText
    let right ← value trees declared t rightText
    compareValues comparison leftText rightText left right
  | _, _ => .error .meaningless

/-- Carries out a call. -/
def call (declared t : VariableTable) (c : Call) : Meaning VariableTable :=
  match c.name, c.args with
  | "DeclareInputVar", [name, type] => onTable (t.bindInput name (.ofTypeName type))
  | "DeclareLocalVar", [name, type] => onTable (t.declareLocal name (.ofTypeName type))
  | "DeclareLocalVar", [name, type, text] => do
    let v ← value trees declared t text
    let t ← onTable (t.declareLocal name (.ofTypeName type))
    onTable (t.assign name v)
  | "SetLocalVar", [target, text] => do
    let v ← value trees declared t text
    onTable ((t.assignPath target v).run types)
  | _, _ => .error .meaningless

mutual

/-- Carries out a statement. -/
def statement (declared t : VariableTable) : Statement → Meaning VariableTable
  | .call c => call types trees declared t c
  | .branch c thenBranch elseBranch => do
    if ← test trees declared t c then statements declared t thenBranch
    else statements (declaredByAll declared thenBranch) t elseBranch

/-- Carries out statements one after the other. -/
def statements (declared t : VariableTable) : List Statement → Meaning VariableTable
  | [] => .ok t
  | s :: rest => do statements (declaredBy declared s) (← statement declared t s) rest

end

/-- Carries out the statements of a script. -/
def script (body : List Statement) (inputs : List Value) : Meaning VariableTable :=
  statements types trees .empty (.withInputs inputs) body

end

/-- The texts that a call evaluates. -/
def textsOfCall (c : Call) : List String :=
  match c.name, c.args with
  | "DeclareLocalVar", [_, _, text] => [text]
  | "SetLocalVar", [_, text] => [text]
  | _, _ => []

/-- The texts that a condition compares. -/
def textsOfCondition (c : Call) : List String := c.args.take 2

mutual

/-- The texts of a statement that are evaluated, each with the declarations in front of it. -/
def sites (declared : VariableTable) : Statement → List (VariableTable × String)
  | .call c => (textsOfCall c).map (declared, ·)
  | .branch c thenBranch elseBranch =>
    (textsOfCondition c).map (declared, ·) ++ allSites declared thenBranch ++
      allSites (declaredByAll declared thenBranch) elseBranch

/-- The texts of several statements that are evaluated. -/
def allSites (declared : VariableTable) : List Statement → List (VariableTable × String)
  | [] => []
  | s :: rest => sites declared s ++ allSites (declaredBy declared s) rest

end

section

variable {types : Registry} {trees trees' : Trees} {declared : VariableTable}

theorem value_congr {text : String} (h : trees declared text = trees' declared text)
    (t : VariableTable) : value trees declared t text = value trees' declared t text := by
  unfold value
  rw [h]

theorem test_congr {c : Call}
    (h : ∀ text ∈ textsOfCondition c, trees declared text = trees' declared text)
    (t : VariableTable) : test trees declared t c = test trees' declared t c := by
  unfold test
  split
  · next comparison leftText rightText more hcomparison hargs =>
    have htexts : textsOfCondition c = [leftText, rightText] := by
      rw [textsOfCondition, hargs]
      rfl
    rw [value_congr (h leftText (by simp [htexts])), value_congr (h rightText (by simp [htexts]))]
  · rfl

theorem call_congr {c : Call}
    (h : ∀ text ∈ textsOfCall c, trees declared text = trees' declared text)
    (t : VariableTable) : call types trees declared t c = call types trees' declared t c := by
  obtain ⟨name, args, line⟩ := c
  unfold call
  split
  · rfl
  · rfl
  · next text hname hargs =>
    obtain rfl : name = _ := hname
    obtain rfl : args = _ := hargs
    rw [value_congr (h text (by simp [textsOfCall]))]
  · next text hname hargs =>
    obtain rfl : name = _ := hname
    obtain rfl : args = _ := hargs
    rw [value_congr (h text (by simp [textsOfCall]))]
  · rfl

mutual

theorem statement_congr (s : Statement) (declared t : VariableTable)
    (h : ∀ site ∈ sites declared s, trees site.1 site.2 = trees' site.1 site.2) :
    statement types trees declared t s = statement types trees' declared t s := by
  match s with
  | .call c =>
    exact call_congr (fun text htext => h (declared, text) (List.mem_map_of_mem htext)) t
  | .branch c thenBranch elseBranch =>
    simp only [sites, List.mem_append] at h
    have htest := test_congr
      (fun text htext => h (declared, text) (.inl (.inl (List.mem_map_of_mem htext)))) t
    have hthen := statements_congr thenBranch declared t fun site hs => h site (.inl (.inr hs))
    have helse := statements_congr elseBranch (declaredByAll declared thenBranch) t
      fun site hs => h site (.inr hs)
    simp only [statement, htest, hthen, helse]

/-- An interpretation depends on nothing but the trees of the texts that it may evaluate. -/
theorem statements_congr (ss : List Statement) (declared t : VariableTable)
    (h : ∀ site ∈ allSites declared ss, trees site.1 site.2 = trees' site.1 site.2) :
    statements types trees declared t ss = statements types trees' declared t ss := by
  match ss with
  | [] => rfl
  | s :: rest =>
    simp only [allSites, List.mem_append] at h
    simp only [statements, statement_congr s declared t fun site hs => h site (.inl hs)]
    congr 1
    funext t'
    exact statements_congr rest (declaredBy declared s) t' fun site hs => h site (.inr hs)

end

end

end Scriptorium.Interpretation

import Scriptorium.Application.Start
import Scriptorium.CommandLine.Arguments
import Scriptorium.Repository.Memory
import Scriptorium.Run.Report

/-!
# Commands

A command either yields what is to be printed, a text or a document, or fails
with a message that tells all causes. Expressions and compilations use an engine
without a repository; a run uses an application whose repository is empty, and
stores the record types given to it there first.
-/

namespace Scriptorium

/-- What a command prints. -/
inductive Output where
  | text (s : String)
  | document (j : Json)
  deriving Repr

/-- The printed form of an output. -/
def Output.print : Output → String
  | .text s => s
  | .document j => String.ofList (j.pretty 0)

/-- Why a command failed. -/
inductive CommandError where
  | unreadableFile (path detail : String)
  | recordSyntax (definition : String)
  | recordRefused (message : String) (causes : List String)
  | variableSyntax (declaration : String)
  | variableRefused (declaration : String) (cause : VariableError)
  | translation (expression : String) (cause : TranslationError)
  | compile (cause : CompileError)
  | inputSyntax (input detail : String)
  | inputRefused (input : String)
  | runFailed (script error : String)
  | configuration (cause : ConfigError)
  deriving Repr

/-- The message of a failed command, with all causes. -/
def CommandError.message : CommandError → String
  | .unreadableFile path detail =>
    Text.fullChain s!"Failed to read script file {path}" [detail]
  | .recordSyntax definition =>
    s!"Invalid record type [{definition}], expected NAME=FIELDS"
  | .recordRefused message causes => Text.fullChain message causes
  | .variableSyntax declaration => s!"Invalid variable [{declaration}], expected NAME:TYPE"
  | .variableRefused declaration cause =>
    Text.fullChain s!"Invalid variable [{declaration}]" (cause.message :: cause.causes)
  | .translation expression cause =>
    Text.fullChain s!"Could not parse expression [{expression}]" (cause.message :: cause.causes)
  | .compile cause => Text.fullChain cause.message cause.causes
  | .inputSyntax input detail => Text.fullChain s!"Input [{input}] is not valid JSON" [detail]
  | .inputRefused input => s!"Input [{input}] cannot be bound to a variable"
  | .runFailed script error => s!"Script [{script}] failed: {error}"
  | .configuration cause => cause.message

namespace CommandLine

/-- The texts before and behind the first occurrence of a character. -/
def cutAt? (sep : Char) (s : String) : Option (String × String) :=
  (Text.splitFirst? [sep] s.toList).map fun (a, b) => (String.ofList a, String.ofList b)

/-- The name and the fields of a record type definition. -/
def recordDefinition (definition : String) : Except CommandError (String × String) :=
  match cutAt? '=' definition with
  | some (name, fields) => .ok (Text.trimmed name, Text.trimmed fields)
  | none => .error (.recordSyntax definition)

/-- Defines record types with an engine. -/
def defineRecords (e : Engine NoRepository) :
    List String → Except CommandError (Engine NoRepository)
  | [] => .ok e
  | definition :: rest => do
    let (name, fields) ← recordDefinition definition
    match e.defineRecord (QualifiedName.record name) fields with
    | (.ok _, e) => defineRecords e rest
    | (.error cause, _) => throw (.recordRefused cause.message cause.causes)

/-- Stores record types in the repository of an engine. -/
def createRecords (e : Engine MemoryRepository) :
    List String → Except CommandError (Engine MemoryRepository)
  | [] => .ok e
  | definition :: rest => do
    let (name, fields) ← recordDefinition definition
    match Catalog.putRecord .create name fields e with
    | (.ok (), e) => createRecords e rest
    | (.error cause, _) => throw (.recordRefused cause.message cause.causes)

/-- Declares a variable that an expression may use. -/
def declareVariable (t : VariableTable) (declaration : String) :
    Except CommandError VariableTable :=
  match cutAt? ':' declaration with
  | none => .error (.variableSyntax declaration)
  | some (name, typeName) =>
    match t.declareInput (Text.trimmed name) (.ofTypeName typeName) with
    | (.ok (), t) => .ok t
    | (.error cause, _) => .error (.variableRefused declaration cause)

/-- Translates an expression. -/
def translate (expression : String) (declarations records : List String) :
    Except CommandError Output := do
  let e ← defineRecords Engine.standalone records
  let t ← declarations.foldlM declareVariable VariableTable.empty
  match (e.inquire (Expression.translate t expression)).1 with
  | .ok code => return .text s!"{code.text}\nkind: {code.kind.name}"
  | .error cause => throw (.translation expression cause)

/-- The last part of a path without its extension. A point at its beginning starts none. -/
def fileStem (path : String) : String :=
  let (first, others) := Text.splitAt '/' path.toList
  let file := others.getLastD first
  match Text.splitLast? ['.'] file with
  | some (c :: stem, _) => String.ofList (c :: stem)
  | _ => String.ofList file

/-- The text of a script file and the name of the script, which is that of the file where no
other is given. -/
def readScript (read : String → Except String String) (file : String) (name : Option String) :
    Except CommandError (String × String) :=
  match read file with
  | .ok body => .ok (name.getD (fileStem file), body)
  | .error detail => .error (.unreadableFile file detail)

/-- What is told about a compiled unit. -/
def unitSummary (u : CompiledUnit) : Json :=
  Json.ofMembers
    [("bytes", Json.ofNat u.payload.utf8ByteSize),
      ("digest", Json.ofOption Json.ofText u.sourceDigest),
      ("kind", Json.ofText u.name.kind.text),
      ("name", Json.ofText u.name.text)]

/-- Compiles a script and lists its units. -/
def compile (name body : String) (records : List String) : Except CommandError Output := do
  let e ← defineRecords Engine.standalone records
  match (e.inquire (Compile.script (QualifiedName.script name) body)).1 with
  | .error cause => throw (.compile cause)
  | .ok c =>
    return .document <| Json.ofMembers
      [("inputs", .array (c.inputs.map (·.toJson))), ("script", Json.ofText name),
        ("units", .array (c.units.map unitSummary))]

/-- A value may begin with this character. -/
def beginsValue (c : Char) : Bool := c.isDigit || "\x7b[\"-tfn".toList.contains c

/-- What is wrong with an input that is no document. The place is told where its front alone
shows the fault. -/
def syntaxFault (input : String) : String :=
  let place := Grammar.Position.behind (input.toList.takeWhile Json.isSpace)
  match Json.skipSpace input.toList with
  | [] => s!"EOF while parsing a value at line {place.line} column {place.column - 1}"
  | c :: _ =>
    if beginsValue c then "malformed document"
    else s!"expected value at line {place.line} column {place.column}"

/-- The value that a document spells. -/
def inputValue (input : String) : Except CommandError Value :=
  match Value.inputDocument? input.toList with
  | none => .error (.inputSyntax input (syntaxFault input))
  | some document =>
    match Value.ofJson? document with
    | none => .error (.inputRefused input)
    | some v => .ok v

/-- Runs a script and reports on the run. -/
def run (config : Config) (name body : String) (inputs records : List String) :
    Except CommandError Output := do
  let values ← inputs.mapM inputValue
  let e ← createRecords (Application.ofRepository config MemoryRepository.empty).engine records
  let (report, _) := e.runSource (QualifiedName.script name) body values
  match report.error with
  | some error => throw (.runFailed report.script error)
  | none =>
    let locals := report.locals.entries.map fun (name, v) => (name, v.toJson)
    return .document <| Json.ofMembers
      [("locals", Json.ofMembers locals), ("script", Json.ofText report.script),
        ("status", Json.ofText report.status.text)]

/-- Carries out a command. `read` yields the text of a file or says why it cannot be read. -/
def execute (read : String → Except String String) (config : Config) :
    Command → Except CommandError Output
  | .translate expression declarations records => translate expression declarations records
  | .compile file name records => do
    let (name, body) ← readScript read file name
    compile name body records
  | .run file name inputs records => do
    let (name, body) ← readScript read file name
    run config name body inputs records
  | .config => (config.text.map .text).mapError .configuration

end CommandLine

end Scriptorium

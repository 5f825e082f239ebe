/-!
# Command line arguments

A command line names one command, with options that take a value each. The
value of an option follows it as an argument of its own or behind an equals
sign; one that begins with a hyphen must be attached in the latter way. After
two hyphens every argument is taken as it stands. Options that are not
repeatable may be given once.
-/

namespace Scriptorium

/-- What the program is asked to do. -/
inductive Command where
  | translate (expression : String) (declarations records : List String)
  | compile (file : String) (name : Option String) (records : List String)
  | run (file : String) (name : Option String) (inputs records : List String)
  | config
  deriving DecidableEq, Repr

/-- A command line that was understood. -/
structure Invocation where
  /-- The configuration file, if one is named. -/
  configFile : Option String
  command : Command
  deriving DecidableEq, Repr

namespace CommandLine

/-- An option of the command line. -/
inductive Key where
  | config
  | name
  | input
  | record
  | variable
  deriving DecidableEq, Repr

namespace Key

/-- The option's name behind two hyphens. -/
def long : Key → String
  | .config => "config"
  | .name => "name"
  | .input => "input"
  | .record => "record"
  | .variable => "var"

/-- The option's letter behind one hyphen. -/
def short? : Key → Option Char
  | .name => some 'n'
  | .input => some 'i'
  | _ => none

/-- The option may be given several times. -/
def isRepeatable : Key → Bool
  | .config | .name => false
  | .input | .record | .variable => true

end Key

/-- The arguments of a command, sorted. -/
structure Sorted where
  options : List (Key × String)
  positionals : List String
  deriving DecidableEq, Repr

namespace Sorted

/-- The values given for an option, in order. -/
def values (s : Sorted) (key : Key) : List String :=
  s.options.filterMap fun (k, v) => if k = key then some v else none

/-- No option is given more often than it may be. -/
def isConsistent (s : Sorted) : Bool :=
  s.options.all fun (k, _) => k.isRepeatable || (s.values k).length ≤ 1

end Sorted

/-- What an argument is by its spelling. -/
inductive Spelling where
  /-- Two hyphens alone. -/
  | escape
  /-- An option with the value attached to it, if there is one. -/
  | option (key : Key) (attached : Option String)
  | unknownOption
  | plain
  deriving DecidableEq, Repr

/-- The text before the first equals sign, and the text behind it. -/
def cutValue : List Char → List Char × Option (List Char)
  | [] => ([], none)
  | c :: cs =>
    if c = '=' then ([], some cs)
    else
      let (before, value) := cutValue cs
      (c :: before, value)

/-- The value attached to a letter, behind an equals sign or not. -/
def attached? : List Char → Option String
  | [] => none
  | '=' :: cs => some (String.ofList cs)
  | cs => some (String.ofList cs)

/-- The spelling of an argument where these options are known. -/
def spelling (known : List Key) (arg : String) : Spelling :=
  match arg.toList with
  | ['-', '-'] => .escape
  | '-' :: '-' :: cs =>
    let (long, value) := cutValue cs
    match known.find? (·.long.toList = long) with
    | some key => .option key (value.map String.ofList)
    | none => .unknownOption
  | '-' :: c :: cs =>
    match known.find? (·.short? = some c) with
    | some key => .option key (attached? cs)
    | none => .unknownOption
  | _ => .plain

/-- The arguments with one more option in front. -/
def withOption (key : Key) (value : String) (s : Sorted) : Sorted :=
  { s with options := (key, value) :: s.options }

/-- The arguments with one more positional in front. -/
def withPositional (arg : String) (s : Sorted) : Sorted :=
  { s with positionals := arg :: s.positionals }

/-- Sorts the arguments of a command that has these options. -/
def sort? (known : List Key) : List String → Option Sorted
  | [] => some ⟨[], []⟩
  | arg :: rest =>
    match spelling known arg with
    | .escape => some ⟨[], rest⟩
    | .unknownOption => none
    | .plain => (sort? known rest).map (withPositional arg)
    | .option key (some value) => (sort? known rest).map (withOption key value)
    | .option key none =>
      match rest with
      | [] => none
      | value :: rest =>
        if spelling known value = .plain then (sort? known rest).map (withOption key value)
        else none

/-- A name of a file may not be empty. -/
def file? (arg : String) : Option String := if arg = "" then none else some arg

/-- The options of a command. -/
def known : String → Option (List Key)
  | "translate" => some [.config, .variable, .record]
  | "compile" => some [.config, .name, .record]
  | "run" => some [.config, .name, .input, .record]
  | "config" => some [.config]
  | _ => none

/-- The command with this name and these arguments. -/
def command? (word : String) (s : Sorted) : Option Command :=
  match word, s.positionals with
  | "translate", [expression] =>
    some (.translate expression (s.values .variable) (s.values .record))
  | "compile", [file] => do
    return .compile (← file? file) (s.values .name).head? (s.values .record)
  | "run", [file] => do
    return .run (← file? file) (s.values .name).head? (s.values .input) (s.values .record)
  | "config", [] => some .config
  | _, _ => none

/-- Reads a command and its arguments. `outer` is the configuration file named before them. -/
def invocation? (outer : Option String) (word : String) (args : List String) :
    Option Invocation := do
  let s ← sort? (← known word) args
  if s.isConsistent then
    return ⟨(s.values .config).head?.or outer, ← command? word s⟩
  else none

/-- Reads the arguments of the program. The configuration file may be named in front of the
command too. -/
def parse? : List String → Option Invocation
  | [] => none
  | arg :: rest =>
    match spelling [.config] arg, rest with
    | .plain, args => invocation? none arg args
    | .option _ (some file), word :: args => front file word args
    | .option _ none, file :: word :: args =>
      if spelling [.config] file = .plain then front file word args else none
    | _, _ => none
where
  /-- Reads a command behind the option in front of it. -/
  front (file word : String) (args : List String) : Option Invocation :=
    if spelling [.config] word = .plain then invocation? (some file) word args else none

end CommandLine

end Scriptorium

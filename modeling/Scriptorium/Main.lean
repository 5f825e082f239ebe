import Scriptorium.CommandLine.Execute
import Scriptorium.Config.Load

/-!
# The program

Reads the command line, the configuration and script files, and prints what the
command yields. The configuration file is the one named on the command line or
in the environment, or the default one if it exists. A command line that is not
understood ends the program with status 2, any other failure with status 1.
-/

namespace Scriptorium.Program

/-- The variable that names the configuration file. -/
def configVariable : String := "BFA_CONFIG_PATH"

/-- The configuration file that need not exist. -/
def defaultFile : String := "bfa.toml"

/-- The settings that the environment can hold, by the names of their variables. -/
def settingVariables : List String :=
  ["BFA__WATCHER__ENABLED", "BFA__WATCHER__POLL_INTERVAL_SECS", "BFA__LOGGING__LEVEL",
    "BFA__LOGGING__RUNTIME_DEBUG"]

/-- The text of a file, or the reason why it cannot be read. -/
def readFile (path : String) : IO (Except String String) := do
  try return .ok (← IO.FS.readFile path)
  catch e => return .error (toString e)

/-- The text of the configuration file, which is empty where there is none. -/
def configText (named : Option String) : IO (Except String String) := do
  match named.or (← IO.getEnv configVariable) with
  | some path => readFile path
  | none =>
    match ← readFile defaultFile with
    | .ok text => return .ok text
    | .error _ => return .ok ""

/-- The settings that the environment holds. -/
def environment : IO (List (String × String)) := do
  let values ← settingVariables.mapM fun name => do
    return (← IO.getEnv name).map (name, ·)
  return values.filterMap id

/-- The configuration of the program. -/
def loadConfig (named : Option String) : IO (Except String Config) := do
  match ← configText named with
  | .error detail => return .error detail
  | .ok text => return (Config.load text (← environment) ⟨none, none, none⟩).mapError (·.message)

/-- The file that a command reads. -/
def fileOf : Command → Option String
  | .compile file _ _ | .run file _ _ _ => some file
  | _ => none

/-- Carries out a command and prints the result. -/
def perform (config : Config) (c : Command) : IO UInt32 := do
  let text ← match fileOf c with
    | some path => readFile path
    | none => pure (.ok "")
  match CommandLine.execute (fun _ => text) config c with
  | .ok output =>
    IO.println output.print
    return 0
  | .error e =>
    IO.eprintln s!"Error: {e.message}"
    return 1

end Scriptorium.Program

open Scriptorium in
def main (args : List String) : IO UInt32 := do
  match CommandLine.parse? args with
  | none =>
    IO.eprintln "Usage: scriptorium [--config FILE] (translate | compile | run | config) ..."
    return 2
  | some invocation =>
    match ← Program.loadConfig invocation.configFile with
    | .error detail =>
      IO.eprintln s!"Error: {detail}"
      return 1
    | .ok config => Program.perform config invocation.command

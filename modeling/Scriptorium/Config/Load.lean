import Scriptorium.Config.Basic
import Scriptorium.Config.Layer
import Scriptorium.Toml.Reader

/-!
# Loading the configuration

The defaults lie under the settings of a file, those under the settings of the
environment, and what the program gives lies over all of them. A setting may be
written as a value of another type that denotes one of its own: a number or a
word for a boolean, a text for a number, and so on. Settings that nobody asks
for are ignored. A section may also be a list of its settings in order, of
which the last ones may be missing.
-/

namespace Scriptorium.Config

/-- The boolean that a setting denotes. -/
def boolean? : Toml → Option Bool
  | .boolean b => some b
  | .integer n => some (n ≠ 0)
  | .decimal d => some (!d.isZero)
  | .text s =>
    match foldKey s with
    | "1" | "true" | "on" | "yes" => some true
    | "0" | "false" | "off" | "no" => some false
    | _ => none
  | _ => none

/-- Numbers lie below this bound. -/
def numberBound : Nat := UInt64.size

/-- The natural number nearest to a decimal, the larger one of two. A decimal out of range
yields the end of the range on its side, and what is no number yields zero. -/
def roundDecimal : Decimal → Nat
  | .nan => 0
  | .infinite negative => if negative then 0 else numberBound - 1
  | .finite negative rank =>
    if negative then 0
    else
      let (n, d) := Decimal.scaleRatio (Decimal.significand rank) 1 (-Decimal.exponent rank)
      min ((2 * n + d) / (2 * d)) (numberBound - 1)

/-- The natural number that a text spells, with a plus sign or without. -/
def readNumber? (cs : List Char) : Option Nat :=
  let ds := match cs with
    | '+' :: ds => ds
    | ds => ds
  if Text.isDigits ds && Text.digitsValue ds < numberBound then some (Text.digitsValue ds)
  else none

/-- The natural number that a setting denotes. -/
def number? : Toml → Option Nat
  | .boolean b => some b.toNat
  | .integer n => if 0 ≤ n then some n.toNat else none
  | .decimal d => some (roundDecimal d)
  | .text s =>
    match foldKey s with
    | "true" | "on" | "yes" => some 1
    | "false" | "off" | "no" => some 0
    | _ => readNumber? s.toList
  | _ => none

/-- The text that a setting denotes. -/
def text? : Toml → Option String
  | .text s => some s
  | .date s => some s
  | .boolean b => some (toString b)
  | .integer n => some (String.ofList (Text.intNumeral n))
  | .decimal d => some (toString d)
  | _ => none

/-- The settings of a section in the order of its keys. -/
def section? (keys : List String) : Toml → Option (List (Option Toml))
  | .table entries => some (keys.map fun key => entries.lookup key)
  | .array items => some ((List.range keys.length).map fun i => items[i]?)
  | _ => none

/-- What a setting denotes, or the default where there is none. -/
def setting? {α : Type} (read : Toml → Option α) (default : α) : Option Toml → Option α
  | none => some default
  | some v => read v

/-- The settings of the watcher. -/
def watcher? (t : Toml) : Option WatcherConfig := do
  match ← section? ["enabled", "poll_interval_secs"] t with
  | [enabled, seconds] =>
    return ⟨← setting? boolean? default.watcher.enabled enabled,
      ← setting? number? default.watcher.pollSeconds seconds⟩
  | _ => none

/-- The settings of the log. -/
def logging? (t : Toml) : Option LoggingConfig := do
  match ← section? ["level", "runtime_debug"] t with
  | [level, debug] =>
    return ⟨← setting? text? default.logging.level level,
      ← setting? boolean? default.logging.runtimeDebug debug⟩
  | _ => none

/-- The configuration that a tree of settings denotes. -/
def ofSettings? (t : Toml) : Option Config := do
  return ⟨← setting? watcher? default.watcher (valueAt? "watcher" t),
    ← setting? logging? default.logging (valueAt? "logging" t)⟩

/-- The default configuration as a tree of settings. -/
def defaultSettings : Toml :=
  .table
    [("watcher", .table
        [("enabled", .boolean default.watcher.enabled),
          ("poll_interval_secs", .integer default.watcher.pollSeconds)]),
      ("logging", .table
        [("level", .text default.logging.level),
          ("runtime_debug", .boolean default.logging.runtimeDebug)])]

/-- The configuration from the text of a file and the variables of the environment. A file may
have a byte order mark in front of its document. -/
def read? (file : String) (environment : List (String × String)) : Option Config := do
  let layer ← Toml.read? (String.ofList (Toml.dropMark file.toList))
  let settings := environment.filterMap fun (name, value) => ofVariable? name value
  ofSettings? (overlay (overlay defaultSettings layer) settings)

/-- The configuration from all layers. -/
def load (file : String) (environment : List (String × String)) (overrides : ConfigOverrides) :
    Except ConfigError Config :=
  match read? file environment with
  | none => .error .unreadable
  | some c => (c.override overrides).check

end Scriptorium.Config

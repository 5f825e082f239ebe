import Scriptorium.Generation.Watcher
import Scriptorium.Toml.Printer

/-!
# Configuration

Two sections of settings: the watcher of the repository and the log. Settings
given in a program override those that were read, and an interval of zero
seconds is refused whoever gave it.
-/

namespace Scriptorium

/-- The settings of the watcher. -/
structure WatcherConfig where
  enabled : Bool
  pollSeconds : Nat
  deriving DecidableEq, Repr

/-- The settings of the log. -/
structure LoggingConfig where
  level : String
  /-- Every assignment and condition of a run is logged. -/
  runtimeDebug : Bool
  deriving DecidableEq, Repr

/-- All settings. -/
structure Config where
  watcher : WatcherConfig
  logging : LoggingConfig
  deriving DecidableEq, Repr

/-- Settings given in a program. -/
structure ConfigOverrides where
  watcherEnabled : Option Bool
  pollSeconds : Option Nat
  logLevel : Option String
  deriving DecidableEq, Repr

/-- Why there is no configuration, or no text of one. -/
inductive ConfigError where
  | unreadable
  | zeroInterval
  | unwritable
  deriving DecidableEq, Repr

/-- The message about settings that cannot be used. -/
def ConfigError.message : ConfigError → String
  | .unreadable => "Failed to load configuration"
  | .zeroInterval => "watcher.poll_interval_secs must be greater than zero"
  | .unwritable => "Failed to render configuration"

namespace Config

/-- The settings where nothing else is said. -/
def default : Config := ⟨⟨true, Watcher.defaultInterval⟩, ⟨"info", false⟩⟩

/-- The settings with those given in a program in their place. -/
def override (c : Config) (o : ConfigOverrides) : Config where
  watcher.enabled := o.watcherEnabled.getD c.watcher.enabled
  watcher.pollSeconds := o.pollSeconds.getD c.watcher.pollSeconds
  logging.level := o.logLevel.getD c.logging.level
  logging.runtimeDebug := c.logging.runtimeDebug

/-- Refuses an interval of zero seconds. -/
def check (c : Config) : Except ConfigError Config :=
  if c.watcher.pollSeconds = 0 then .error .zeroInterval else .ok c

/-- The interval between two polls in milliseconds. -/
def pollMilliseconds (c : Config) : Nat := c.watcher.pollSeconds * 1000

/-- The settings as a file that reads back as them. A file has no number beyond 63 bits. -/
def text (c : Config) : Except ConfigError String :=
  if c.watcher.pollSeconds ≤ Int64.maxValue.toInt then
    .ok <| String.join
      [ "[watcher]\n",
        s!"enabled = {c.watcher.enabled}\n",
        s!"poll_interval_secs = {c.watcher.pollSeconds}\n",
        "\n[logging]\n",
        s!"level = {Toml.quoted c.logging.level}\n",
        s!"runtime_debug = {c.logging.runtimeDebug}\n" ]
  else .error .unwritable

end Config

end Scriptorium

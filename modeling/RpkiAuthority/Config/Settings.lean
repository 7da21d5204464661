import RpkiAuthority.Bgp.Index
import RpkiAuthority.Text.Decimal

/-!
# Settings

What can be configured: where the log goes and how much of it, how often and after which pauses a
command is attempted again, and which announcements are kept. Every setting has a default.
-/

namespace RpkiAuthority

/-- Where the log goes. -/
inductive LogDestination where
  | stderr
  | file
  deriving DecidableEq, Repr

/-- The written form of the destination. -/
def LogDestination.text : LogDestination → String
  | stderr => "stderr"
  | file => "file"

/-- How much is logged. -/
inductive LogFilter where
  | off
  | error
  | warn
  | info
  | debug
  | trace
  deriving DecidableEq, Repr

namespace LogFilter

/-- All filters. -/
def all : List LogFilter := [off, error, warn, info, debug, trace]

/-- The written form. -/
def text : LogFilter → String
  | off => "OFF"
  | error => "ERROR"
  | warn => "WARN"
  | info => "INFO"
  | debug => "DEBUG"
  | trace => "TRACE"

end LogFilter

/-- How commands are attempted. -/
structure CommandSettings where
  /-- How often a command is attempted before it is given up. -/
  maxAttempts : Nat
  /-- The fixed part of the pause before the first repetition, in milliseconds. -/
  retryBase : Nat
  /-- The random part of that pause is below this number. -/
  retryJitter : Nat
  /-- How long a lock is waited for, in milliseconds. -/
  lockTimeout : Nat
  deriving DecidableEq, Repr

namespace CommandSettings

/-- The settings used where nothing else is configured. -/
def standard : CommandSettings := ⟨3, 20, 30, 5000⟩

/-- The pause before a repetition, counted from zero, in milliseconds of 64 bits: the pause before
the first one, doubled for each one before. Bits shifted out are lost, and where all of them would
be the pause is the longest of all. -/
def backoff (s : CommandSettings) (retry draw : Nat) : Nat :=
  if retry < 64 then (s.retryBase + draw) <<< retry % (1 <<< 64) else Text.max64

end CommandSettings

/-- All settings. -/
structure Settings where
  logDestination : LogDestination
  logFile : Option String
  logFilter : LogFilter
  commands : CommandSettings
  bgp : BgpFilter
  deriving DecidableEq, Repr

namespace Settings

/-- The settings used where nothing else is configured. -/
def standard : Settings where
  logDestination := .stderr
  logFile := none
  logFilter := .info
  commands := .standard
  bgp := .standard

end Settings

end RpkiAuthority

import RpkiAuthority.Config.Logging
import RpkiAuthority.Toml.Reader

/-!
# Reading settings

Settings are written in TOML: some members of the document itself and two sections. Members that are
no settings are ignored, and what is missing keeps its default. A section may also be an array with
its settings in order. A document is refused as unreadable if it is not TOML or a setting is of the
wrong kind, and what could be read is then checked as a whole.
-/

namespace RpkiAuthority

/-- Why settings are refused. -/
inductive SettingsError where
  /-- The text is not TOML, or a setting is not of its kind. -/
  | unreadable
  | noAttempts
  | ipv4FloorTooLong
  | ipv6FloorTooLong
  | noLogFile
  deriving DecidableEq, Repr

namespace SettingsError

/-- The wording of the error. What makes a text unreadable is not told. -/
def message : SettingsError → Option String
  | unreadable => none
  | noAttempts => some "commands.max_attempts must be at least 1"
  | ipv4FloorTooLong => some "bgp.ipv4_prefix_len_floor must not exceed 32"
  | ipv6FloorTooLong => some "bgp.ipv6_prefix_len_floor must not exceed 128"
  | noLogFile => some LogSetupError.noLogFile.message

end SettingsError

/-- The destination with a written form. -/
def LogDestination.read (s : String) : Option LogDestination :=
  [LogDestination.stderr, .file].find? fun d => d.text == s

/-- The filter with a written form, in letters of any case. -/
def LogFilter.read (s : String) : Option LogFilter :=
  LogFilter.all.find? fun f => f.text.toList == s.toList.map Char.toUpper

namespace Toml

/-- The text of a string. -/
def text? : Toml → Option String
  | .string s => some s
  | _ => none

/-- A natural number of at most `max`. -/
def nat? (max : Nat) : Toml → Option Nat
  | .integer n => if 0 ≤ n ∧ n ≤ max then some n.toNat else none
  | _ => none

/-- The settings of a section by name. The names are those in the order of an array. A date or time
is a section without settings. -/
def section? (names : List String) : Toml → Option TomlMembers
  | .table _ members => some members
  | .array elements => some (names.zip elements)
  | .tables elements => some (names.zip (elements.map (.table .header)))
  | .moment => some []
  | _ => none

end Toml

namespace TomlMembers

/-- A setting, or its default if it is missing. -/
def setting {α : Type} (ms : TomlMembers) (name : String) (standard : α)
    (read : Toml → Option α) : Option α :=
  match ms.find? name with
  | some v => read v
  | none => some standard

end TomlMembers

/-- The settings of a section of commands. -/
def CommandSettings.ofSection (v : Toml) : Option CommandSettings := do
  let ms ← v.section? ["max_attempts", "retry_base_ms", "retry_jitter_ms", "lock_timeout_ms"]
  let d := CommandSettings.standard
  return {
    maxAttempts := ← ms.setting "max_attempts" d.maxAttempts (Toml.nat? Text.max32)
    retryBase := ← ms.setting "retry_base_ms" d.retryBase (Toml.nat? Text.max64)
    retryJitter := ← ms.setting "retry_jitter_ms" d.retryJitter (Toml.nat? Text.max64)
    lockTimeout := ← ms.setting "lock_timeout_ms" d.lockTimeout (Toml.nat? Text.max64) }

/-- The settings of a section of announcements. -/
def BgpFilter.ofSection (v : Toml) : Option BgpFilter := do
  let ms ← v.section? ["visibility_threshold", "ipv4_prefix_len_floor", "ipv6_prefix_len_floor"]
  let d := BgpFilter.standard
  return {
    visibilityThreshold :=
      ← ms.setting "visibility_threshold" d.visibilityThreshold (Toml.nat? Text.max32)
    ipv4Floor := ← ms.setting "ipv4_prefix_len_floor" d.ipv4Floor (Toml.nat? Text.max8)
    ipv6Floor := ← ms.setting "ipv6_prefix_len_floor" d.ipv6Floor (Toml.nat? Text.max8) }

namespace Settings

/-- The settings in a document. -/
def ofMembers (ms : TomlMembers) : Option Settings := do
  let d := Settings.standard
  return {
    logDestination := ← ms.setting "log_type" d.logDestination fun v => do
      LogDestination.read (← v.text?)
    logFile := ← ms.setting "log_file" d.logFile fun v => do return some (← v.text?)
    logFilter := ← ms.setting "log_level" d.logFilter fun v => do LogFilter.read (← v.text?)
    commands := ← ms.setting "commands" d.commands CommandSettings.ofSection
    bgp := ← ms.setting "bgp" d.bgp BgpFilter.ofSection }

/-- Checks settings as a whole. -/
def check (s : Settings) : Except SettingsError Unit :=
  if s.commands.maxAttempts = 0 then .error .noAttempts
  else if 32 < s.bgp.ipv4Floor then .error .ipv4FloorTooLong
  else if 128 < s.bgp.ipv6Floor then .error .ipv6FloorTooLong
  else if s.logTarget.isNone then .error .noLogFile
  else .ok ()

/-- Reads settings. -/
def read (text : String) : Except SettingsError Settings :=
  match (TomlText.read text).bind ofMembers with
  | none => .error .unreadable
  | some s => (s.check).map fun () => s

/-- The wording of the error for a file of settings that cannot be read. -/
def unopenedMessage (path reason : String) : String :=
  "Could not read config file '" ++ path ++ "': " ++ reason

end Settings

end RpkiAuthority

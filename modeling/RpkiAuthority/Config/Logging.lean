import RpkiAuthority.Config.Settings

/-!
# Where the log goes

The settings name a target for the log. Opening it may fail: a file may not be writable, and there
is only one log, which may have a target already.
-/

namespace RpkiAuthority

/-- What log lines are written to. -/
inductive LogTarget where
  | stderr
  | file (path : String)
  deriving DecidableEq, Repr

/-- The target that the settings name; missing if they ask for a file and name none. -/
def Settings.logTarget (s : Settings) : Option LogTarget :=
  match s.logDestination with
  | .stderr => some .stderr
  | .file => s.logFile.map .file

/-- Why the log cannot be set up. -/
inductive LogSetupError where
  | noLogFile
  | unopenedFile (path reason : String)
  /-- The log has a target already. -/
  | alreadySetUp (destination : LogDestination)
  deriving DecidableEq, Repr

namespace LogSetupError

/-- The wording of the error. -/
def message : LogSetupError → String
  | noLogFile => "log_file not configured with log_type = \"file\""
  | unopenedFile path reason => "Failed to open log file '" ++ path ++ "': " ++ reason
  | alreadySetUp destination =>
    "Failed to init " ++ destination.text ++
      " logging: attempted to set a logger after the logging system was already initialized"

end LogSetupError

end RpkiAuthority

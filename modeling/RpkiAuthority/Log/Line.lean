/-!
# Log lines

A line of the log has a level and, while a command is executed, a context that names the command.
The context belongs to whoever is running: entering one gives back what is needed to restore the one
before, and restoring does not ask whether that still is the right one.

There are three levels. Anything less important than `LogLevel.info` is for debugging and left out.
-/

namespace RpkiAuthority

/-- How important a log line is. -/
inductive LogLevel where
  | info
  | warn
  | error
  deriving DecidableEq, Repr

/-- The written form of the level. -/
def LogLevel.text : LogLevel → String
  | info => "INFO"
  | warn => "WARN"
  | error => "ERROR"

/-- What is named in log lines, if anything. -/
structure LogContext where
  current : Option String
  deriving DecidableEq, Repr

namespace LogContext

/-- No context. -/
def none : LogContext := ⟨Option.none⟩

/-- Enters a context; the first component restores the one before. -/
def enter (c : LogContext) (text : String) : LogContext × LogContext := (c, ⟨some text⟩)

end LogContext

/-- A line of the log. -/
structure LogLine where
  level : LogLevel
  context : LogContext
  message : String
  deriving DecidableEq, Repr

/-- The written form, with the context only if there is one. -/
def LogLine.text (l : LogLine) : String :=
  match l.context.current with
  | some context => "[" ++ l.level.text ++ "] [" ++ context ++ "] " ++ l.message
  | Option.none => "[" ++ l.level.text ++ "] " ++ l.message

end RpkiAuthority

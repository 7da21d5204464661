import RpkiAuthority.Engine.Running

/-!
# Executing commands

A command is attempted in a transaction of its own. The attempt ends with a commit, or with nothing
changed; in both cases all locks are released. When another transaction stood in the way the command
is attempted again, up to a limit, and then given up with an error that names the commands of others
in between.
-/

namespace RpkiAuthority

namespace Engine

variable {X : Interface}

/-- What log lines name while a command is executed. -/
def contextOf (c : Command) : LogContext :=
  ⟨some (c.group.text ++ ":" ++ c.type.text ++ ":" ++ c.authority.id.repr)⟩

/-- Notes an outcome of the reset of a scope in the log. -/
def logDropped (context : LogContext) : List Nat → Process X Unit
  | [] => return
  | count :: rest => do
    Process.step (.log ⟨.warn, context, Propagation.droppedMessage count⟩)
    logDropped context rest

/-- Attempts a command once. -/
def attempt (e : Engine X) (levels : Nat) (c : Command) :
    Process X (Except CommandError CommandStatus) := do
  let tx ← Process.step .start
  let (result, state) ← ((e.nesting levels).run c).run (RunState.new tx (contextOf c))
  logDropped state.logContext state.scope.reset.1
  match result with
  | .error err =>
    Process.step (.release state.tx.id)
    return .error err
  | .ok status =>
    let committed ← Process.step (.commit state.tx state.deletions state.records)
    Process.step (.release state.tx.id)
    match committed with
    | .ok () => return .ok status
    | .error err => return .error (.storage err)

/-- The error of a command that is given up. -/
def givenUp (c : Command) : Process X CommandError := do
  let found ← Process.step (.read c.authority.id)
  let current := match found with
    | some ca => ca.version
    | none => c.authority.version
  return .concurrentModification c.authority.id current c.authority.version
    (← Process.step (.recordsSince c.authority))

/-- What is noted in the log when a command is attempted again. -/
def retryMessage (c : Command) (err : CommandError) (retry pause : Nat) : String :=
  "Command failed with possibly transient error '" ++ err.message ++ "', retry " ++ retry.repr ++
    " in " ++ pause.repr ++ " ms: " ++ c.text

/-- What is noted in the log when a command is given up. -/
def givenUpMessage (c : Command) (err : CommandError) (attempts : Nat) : String :=
  "Error processing command after " ++ attempts.repr ++ " tries: " ++ c.text ++ ": " ++ err.message

/-- What is noted in the log when a command fails for good. -/
def failureLine (c : Command) (err : CommandError) : LogLine :=
  if err.isUserError then
    ⟨.info, contextOf c, "Aborted a (user) command: " ++ c.text ++ " for reason " ++ err.message⟩
  else ⟨.warn, contextOf c, "Error processing command: " ++ c.text ++ ": " ++ err.message⟩

/-- Attempts a command that was attempted `retry` times before, at most `more` times after this. -/
def attempts (e : Engine X) (levels : Nat) (c : Command) :
    (more retry : Nat) → Process X (Except CommandError CommandStatus)
  | more, retry => do
    match ← e.attempt levels c with
    | .ok status => return .ok status
    | .error err =>
      if err.isTransient then
        match more with
        | 0 =>
          Process.step (.log ⟨.error, contextOf c, givenUpMessage c err (retry + 1)⟩)
          return .error (← givenUp c)
        | more + 1 =>
          let draw ← Process.step (.draw e.settings.commands.retryJitter)
          Process.step (.measure .retry)
          Process.step (.log ⟨.info, contextOf c,
            retryMessage c err (retry + 1) (e.settings.commands.backoff retry draw)⟩)
          e.attempts levels c more (retry + 1)
      else
        Process.step (.log (failureLine c err))
        return .error err

/-- How a command ended. -/
def outcomeOf : Except CommandError CommandStatus → CommandOutcome
  | .ok status => if status.hasEffect then .success else .noEffect
  | .error _ => .failure

/-- Executes a command. -/
def execute (e : Engine X) (levels : Nat) (c : Command) :
    Process X (Except CommandError CommandStatus) := do
  let result ← e.attempts levels c (max e.settings.commands.maxAttempts 1 - 1) 0
  Process.step (.measure (.duration c.type))
  Process.step (.measure (.outcome (outcomeOf result)))
  return result

end Engine

end RpkiAuthority

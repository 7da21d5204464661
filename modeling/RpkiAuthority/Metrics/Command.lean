import RpkiAuthority.Collection.OrdMap
import RpkiAuthority.History.CommandType
import RpkiAuthority.Metrics.Text
import RpkiAuthority.Number.Shortest

/-!
# Metrics of commands

Counted are, for each type of command, the executions and the time they took, the attempts that had
to be repeated, and how commands ended.
-/

namespace RpkiAuthority

/-- How a command ended. -/
inductive CommandOutcome where
  | success
  | noEffect
  | failure
  deriving DecidableEq, Repr

namespace CommandOutcome

/-- All outcomes in the order they are listed. -/
def all : List CommandOutcome := [success, noEffect, failure]

/-- The written form. -/
def text : CommandOutcome → String
  | success => "success"
  | noEffect => "no_effect"
  | failure => "failure"

end CommandOutcome

/-- The executions of commands of one type. -/
structure Executions where
  /-- The time that all of them took together. -/
  nanoseconds : Nat
  count : Nat
  deriving DecidableEq, Repr

namespace Executions

/-- The time in seconds: whole seconds and the fraction are turned into doubles and added. -/
def seconds (e : Executions) : Binary64 :=
  (Binary64.ofNat (e.nanoseconds / 1000000000)).add
    (.nearest (e.nanoseconds % 1000000000) 1000000000)

end Executions

/-- The metrics of commands. -/
structure CommandMetrics where
  executions : OrdMap CommandType Executions
  retries : Nat
  successes : Nat
  withoutEffect : Nat
  failures : Nat
  deriving DecidableEq

namespace CommandMetrics

/-- Nothing counted yet. -/
def initial : CommandMetrics := ⟨OrdMap.empty, 0, 0, 0, 0⟩

/-- Counts an execution. -/
def recordDuration (m : CommandMetrics) (type : CommandType) (nanoseconds : Nat) :
    CommandMetrics :=
  let e := (m.executions.find? type).getD ⟨0, 0⟩
  { m with executions := m.executions.insert type ⟨e.nanoseconds + nanoseconds, e.count + 1⟩ }

/-- Counts a repeated attempt. -/
def recordRetry (m : CommandMetrics) : CommandMetrics := { m with retries := m.retries + 1 }

/-- Counts an outcome. -/
def recordOutcome (m : CommandMetrics) : CommandOutcome → CommandMetrics
  | .success => { m with successes := m.successes + 1 }
  | .noEffect => { m with withoutEffect := m.withoutEffect + 1 }
  | .failure => { m with failures := m.failures + 1 }

/-- The number of executions of commands of a type. -/
def executionsOf (m : CommandMetrics) (type : CommandType) : Nat :=
  match m.executions.find? type with
  | some e => e.count
  | none => 0

/-- The number of commands with an outcome. -/
def outcomes (m : CommandMetrics) : CommandOutcome → Nat
  | .success => m.successes
  | .noEffect => m.withoutEffect
  | .failure => m.failures

/-- The metric of the executions. -/
def durationMetric : Metric :=
  ⟨"command_execution_duration_seconds", "time spent executing commands, including retries",
    .summary⟩

/-- The metric of the repeated attempts. -/
def retryMetric : Metric :=
  ⟨"command_transaction_retries_total", "number of commands retried after a transaction conflict",
    .counter⟩

/-- The metric of the outcomes. -/
def outcomeMetric : Metric :=
  ⟨"command_outcomes_total", "number of executed commands by outcome", .counter⟩

/-- All metrics as text, line by line. -/
def lines (m : CommandMetrics) : List String :=
  durationMetric.header ++
    m.executions.entries.map (fun e =>
      durationMetric.sample "_sum" [("command_type", e.1.text)] e.2.seconds.shortest.text) ++
    m.executions.entries.map (fun e =>
      durationMetric.sample "_count" [("command_type", e.1.text)] e.2.count.repr) ++
    retryMetric.single m.retries.repr ++
    outcomeMetric.header ++
    CommandOutcome.all.map fun o =>
      outcomeMetric.sample "" [("outcome", o.text)] (m.outcomes o).repr

end CommandMetrics

end RpkiAuthority

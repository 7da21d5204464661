import RpkiAuthority.Text.Pieces

/-!
# Metrics in the Prometheus text format

A metric is announced by a header of two lines, its help text and its type. A sample is a line with
the name, which may have a suffix, labels in braces if it is one of several, and the value.
-/

namespace RpkiAuthority

/-- The type of a metric. -/
inductive MetricType where
  | counter
  | gauge
  | summary
  deriving DecidableEq, Repr

/-- The written form of the type. -/
def MetricType.text : MetricType → String
  | counter => "counter"
  | gauge => "gauge"
  | summary => "summary"

/-- A metric. -/
structure Metric where
  name : String
  help : String
  type : MetricType
  deriving DecidableEq, Repr

namespace Metric

/-- The name with which every metric begins. -/
def family : String := "rpkicore"

/-- The name in full. -/
def fullName (m : Metric) : String := family ++ "_" ++ m.name

/-- The header. -/
def header (m : Metric) : List String :=
  ["# HELP " ++ m.fullName ++ " " ++ m.help, "# TYPE " ++ m.fullName ++ " " ++ m.type.text]

/-- The header and the only sample. -/
def single (m : Metric) (value : String) : List String :=
  m.header ++ [m.fullName ++ " " ++ value]

/-- One of several samples, told apart by labels. -/
def sample (m : Metric) (suffix : String) (labels : List (String × String)) (value : String) :
    String :=
  m.fullName ++ suffix ++ "\x7b" ++
    Text.join ", " (labels.map fun l => l.1 ++ "=\"" ++ l.2 ++ "\"") ++ "\x7d " ++ value

end Metric

end RpkiAuthority

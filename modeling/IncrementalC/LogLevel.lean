import IncrementalC.Text.Blank

/-!
Contract: how much is logged.

Owns: the levels and their names, which are read in either case and with white space
around them.

Does not own: logging.
-/

namespace IncrementalC

/-- The levels, from the one that logs most to the one that logs least. -/
inductive LogLevel where
  | trace
  | debug
  | info
  | warn
  | error
deriving DecidableEq, Repr

namespace LogLevel

/-- Every level. -/
def all : List LogLevel := [trace, debug, info, warn, error]

/-- The name of a level. -/
def render : LogLevel → String
  | .trace => "Trace"
  | .debug => "Debug"
  | .info => "Info"
  | .warn => "Warn"
  | .error => "Error"

/-- The level of a name; `warning` is another name of `warn`. -/
def parse? (name : String) : Option LogLevel :=
  match String.ofList ((Text.trim name.toList).map Char.toLower) with
  | "trace" => some .trace
  | "debug" => some .debug
  | "info" => some .info
  | "warn" | "warning" => some .warn
  | "error" => some .error
  | _ => none

end LogLevel

end IncrementalC

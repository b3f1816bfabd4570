namespace HotFields

namespace Log

/-- Severity, from the most detailed to the most urgent. -/
inductive Level where
  | trace
  | debug
  | info
  | warn
  | error
  deriving DecidableEq

def Level.name : Level → String
  | .trace => "TRACE"
  | .debug => "DEBUG"
  | .info => "INFO"
  | .warn => "WARN"
  | .error => "ERROR"

/-- Position in the order of urgency. -/
def Level.rank : Level → Nat
  | .trace => 0
  | .debug => 1
  | .info => 2
  | .warn => 3
  | .error => 4

/-- The part of the program that speaks. -/
inductive Source where
  | command
  | walk
  | resolve
  | pass
  | timing
  deriving DecidableEq

/-- The name of a source, which a filter selects by how it begins. -/
def Source.name : Source → String
  | .command => "heatmap"
  | .walk => "heatmap_analysis::walker"
  | .resolve => "heatmap_analysis::resolver"
  | .pass => "heatmap_analysis::pass"
  | .timing => "heatmap_utils::profiler"

/-- One entry: a message and named values in the order given. -/
structure Entry where
  level : Level
  source : Source
  message : String
  fields : List (String × String) := []
  deriving DecidableEq

/-- The line that shows an entry. -/
def Entry.line (e : Entry) : String :=
  e.fields.foldl (fun text (key, value) => text ++ " " ++ key ++ "=" ++ value)
    (e.level.name ++ " " ++ e.message)

end Log

/-- Entries in the order made. An analysis returns the entries that it makes; printing them is left to the caller.
-/
abbrev Log := List Log.Entry

end HotFields

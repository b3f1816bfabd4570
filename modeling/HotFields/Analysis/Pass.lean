import HotFields.Analysis.Report
import HotFields.Analysis.Walk

namespace HotFields

/-- A root has a body, and is walked in its own right: in entry scope it carries the entry symbol. -/
def isRoot (p : Program) (o : Options) (function : FunctionId) : Bool :=
  p.hasBody function && (o.walksAllFunctions || p.functionName function == o.entrySymbol)

/-- The state of a pass. It is handed functions one by one and walks those that are roots into one table. -/
structure Pass where
  options : Options
  walker : Walker
  table : Table := {}
  walked : Nat := 0
  log : Log := []

namespace Pass

def start (o : Options) : Pass where
  options := o
  walker := Walker.ofOptions o

/-- Takes a function and tells whether it was walked. -/
def runOnFunction (p : IndexedProgram) (pass : Pass) (function : FunctionId) : Bool × Pass :=
  if isRoot p.toProgram pass.options function then
    let w := pass.walker.walk p function pass.table
    (true,
      { pass with
        walker := w.walker
        table := w.sink
        walked := pass.walked + 1
        log := pass.log ++ w.log ++
          [{ level := .debug, source := .pass, message := "walked function",
             fields := [("function", p.functionName function), ("events", Nat.repr w.events)] }] })
  else
    (false,
      { pass with
        log := pass.log ++
          [{ level := .trace, source := .pass, message := "not a root, skipping",
             fields := [("function", p.functionName function)] }] })

/-- Ends a unit of work: notes the totals and gives the report. -/
def finalize (pass : Pass) : String × Pass :=
  (Report.render pass.table,
    { pass with
      log := pass.log ++
        [{ level := .info, source := .pass, message := "member access analysis finished",
           fields := [("roots", Nat.repr pass.walked),
             ("structures", Nat.repr pass.table.structures.length),
             ("accesses", Nat.repr pass.table.total.toNat)] }] })

end Pass

/-- The entry that says that there was nothing to walk. -/
def noRootsEntry (o : Options) : Log.Entry where
  level := .warn
  source := .pass
  message := "no function matched the entry symbol"
  fields := [("entry", o.entrySymbol)]

/-- A table and the entries made on the way to it. -/
structure Analysis where
  table : Table
  log : Log

/-- Analyses a program function by function. -/
def analyze (p : IndexedProgram) (o : Options) : Analysis :=
  let pass := (p.functionIds.filter p.hasBody).foldl
    (fun pass function => (pass.runOnFunction p function).2) (Pass.start o)
  { table := pass.table
    log := if pass.walked = 0 then pass.log ++ [noRootsEntry o] else pass.log }

end HotFields

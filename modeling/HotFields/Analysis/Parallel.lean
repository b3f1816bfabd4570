import HotFields.Analysis.Pass

namespace HotFields

/-- How the roots are cut into runs, each walked by a walker of its own, and in which order the tables of the runs
are joined. -/
inductive Plan where
  /-- A run of roots for one walker. -/
  | chunk (roots : List FunctionId)
  /-- A table that nothing was recorded in. -/
  | blank
  /-- The join of two plans. -/
  | join (left right : Plan)

namespace Plan

/-- The roots of a plan, in order. -/
def roots : Plan → List FunctionId
  | chunk roots => roots
  | blank => []
  | join left right => left.roots ++ right.roots

/-- Walks a run of roots with one walker into one table. -/
def walkChunk (p : IndexedProgram) (o : Options) (roots : List FunctionId) : Walking Table :=
  roots.foldl
    (fun done function =>
      let w := done.walker.walk p function done.sink
      { w with events := done.events + w.events, log := done.log ++ w.log })
    { walker := Walker.ofOptions o, sink := Table.empty }

/-- The table of a plan. -/
def run (p : IndexedProgram) (o : Options) : Plan → Table
  | chunk roots => (walkChunk p o roots).sink
  | blank => Table.empty
  | join left right => (left.run p o).merged (right.run p o)

/-- The entries that the walkers of a plan make, in the order of the roots. -/
def log (p : IndexedProgram) (o : Options) : Plan → Log
  | chunk roots => (walkChunk p o roots).log
  | blank => []
  | join left right => left.log p o ++ right.log p o

/-- Several roots are handed out to workers. A single one is walked by the caller. -/
def isHandedOut (plan : Plan) : Bool :=
  1 < plan.roots.length

/-- The entries that workers make. -/
def workerLog (p : IndexedProgram) (o : Options) (plan : Plan) : Log :=
  if plan.isHandedOut then plan.log p o else []

/-- The entries of walks that the caller makes. -/
def callerLog (p : IndexedProgram) (o : Options) (plan : Plan) : Log :=
  if plan.isHandedOut then [] else plan.log p o

/-- Every root on its own, joined from left to right. -/
def perRoot (roots : List FunctionId) : Plan :=
  roots.foldl (fun plan root => plan.join (chunk [root])) blank

end Plan

/-- The roots of a program. -/
def rootsOf (p : Program) (o : Options) : List FunctionId :=
  p.functionIds.filter (isRoot p o)

/-- Analyses a program by a plan for its roots. The entries are those of the caller. -/
def analyzeBy (plan : Plan) (p : IndexedProgram) (o : Options) : Analysis :=
  { table := plan.run p o
    log := (if plan.roots.isEmpty then [noRootsEntry o] else []) ++
      { level := .debug, source := .pass, message := "walking roots in parallel",
        fields := [("roots", Nat.repr plan.roots.length)] } :: plan.callerLog p o }

/-- Analyses every root on its own. -/
def analyzeParallel (p : IndexedProgram) (o : Options) : Analysis :=
  analyzeBy (Plan.perRoot (rootsOf p.toProgram o)) p o

end HotFields

import HotFields.Analysis.Resolve
import HotFields.Options.Basic

namespace HotFields

/-- What a walk does, and the instructions that it has classified. -/
structure Walker where
  traverseArgumentUses : Bool
  attributeGlobalOperands : Bool
  deduplicate : Bool
  visited : List InstId := []

/-- A walker that follows the options. -/
def Walker.ofOptions (o : Options) : Walker where
  traverseArgumentUses := o.traverseArgumentUses
  attributeGlobalOperands := o.attributeGlobalOperands
  deduplicate := o.deduplicate

/-- A walk under way. -/
structure Walking (σ : Type) where
  walker : Walker
  sink : σ
  events : Nat := 0
  log : Log := []

namespace Walking

variable {σ : Type} [AccessSink σ]

def note (w : Walking σ) (entry : Log.Entry) : Walking σ :=
  { w with log := w.log ++ [entry] }

/-- Resolves a chain and reports how many accesses it gave. -/
def resolve (p : IndexedProgram) (w : Walking σ) (found : Found) : Walking σ :=
  let r := found.chain.resolve p.toProgram w.walker.attributeGlobalOperands found.origin w.sink
  { w with
    sink := r.sink
    events := w.events + r.produced
    log := w.log ++ r.log ++
      [{ level := .trace, source := .walk, message := "resolved address chain",
         fields := [("origin", found.origin.name), ("produced", Nat.repr r.produced)] }] }

/-- Classifies an instruction and resolves its chain, once in a walk if the walker de-duplicates. -/
def visit (p : IndexedProgram) (w : Walking σ) (i : InstId) : Walking σ :=
  if w.walker.deduplicate then
    if i ∈ w.walker.visited then w
    else
      (classify p.toProgram i).foldl (resolve p)
        { w with walker.visited := i :: w.walker.visited }
  else (classify p.toProgram i).foldl (resolve p) w

/-- Visits the body of a direct callee. Calls in it are not followed. -/
def enterCallee (p : IndexedProgram) (w : Walking σ) (callee : FunctionId) : Walking σ :=
  (p.instructionsOf callee).foldl (visit p)
    (w.note
      { level := .debug, source := .walk, message := "walking direct callee",
        fields := [("callee", p.functionName callee)] })

/-- Whether an operand is a plain integer, which has no uses to follow. -/
def isIntegerConstant (p : IndexedProgram) (v : Value) : Bool :=
  (p.constantIndex v).isSome && (p.globalType v).isNone

/-- Visits the users of a call argument. -/
def followArgument (p : IndexedProgram) (w : Walking σ) (v : Value) : Walking σ :=
  if isIntegerConstant p v then w else (p.users v).foldl (visit p) w

/-- Visits one instruction of the walked function and what a call in it leads to. -/
def walkInstruction (p : IndexedProgram) (w : Walking σ) (i : InstId) : Walking σ :=
  let w := w.visit p i
  if p.instKind i = .call then
    let w :=
      match p.directCallee i with
      | some callee => w.enterCallee p callee
      | none => w
    if w.walker.traverseArgumentUses then (p.callArguments i).foldl (followArgument p) w else w
  else w

end Walking

/-- Walks a function into a sink: its own instructions, those of its direct callees one level deep, and, if asked,
the users of call arguments. Every walk starts with nothing visited. -/
def Walker.walk {σ : Type} [AccessSink σ] (walker : Walker) (p : IndexedProgram)
    (function : FunctionId) (sink : σ) : Walking σ :=
  (p.instructionsOf function).foldl (Walking.walkInstruction p)
    { walker := { walker with visited := [] }, sink }

end HotFields

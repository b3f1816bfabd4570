import HotFields.Analysis.Pass
import HotFields.Program.Validate

namespace HotFields

namespace Strict

def instKind (p : Program) (i : InstId) : Except Dangling InstKind := do
  p.checkListed i
  return p.instKind i

def addressChain (p : Program) (i : InstId) : Except Dangling (Option Chain) := do
  p.checkListed i
  return p.addressChain i

def memoryAddress (p : Program) (i : InstId) : Except Dangling (Option Value) := do
  p.checkListed i
  return p.memoryAddress i

def directCallee (p : Program) (i : InstId) : Except Dangling (Option FunctionId) := do
  p.checkListed i
  return p.directCallee i

def callArguments (p : Program) (i : InstId) : Except Dangling (List Value) := do
  p.checkListed i
  return p.callArguments i

def instructionsOf (p : Program) (function : FunctionId) : Except Dangling (List InstId) := do
  p.checkFunction function
  return p.instructionsOf function

def functionName (p : Program) (function : FunctionId) : Except Dangling String := do
  p.checkFunction function
  return p.functionName function

def hasBody (p : Program) (function : FunctionId) : Except Dangling Bool := do
  p.checkFunction function
  return p.hasBody function

/-- Looks the constant up that an operand names. -/
def constantChain (p : Program) (v : Value) : Except Dangling (Option Chain) := do
  if let .const _ := v then p.checkValue v
  return p.constantChain v

/-- Looks the global up that an operand names. -/
def constantIndex (p : Program) (v : Value) : Except Dangling (Option UInt64) := do
  if let .global _ := v then p.checkValue v
  return p.constantIndex v

/-- Looks the global up that an operand names, and its declared type. -/
def globalType (p : Program) (v : Value) : Except Dangling (Option TypeId) := do
  if let .global _ := v then p.checkValue v
  (p.globalType v).toList.forM p.checkType
  return p.globalType v

def structName (p : Program) (t : TypeId) : Except Dangling (Option String) := do
  p.checkType t
  return p.structName t

/-- Moves the cursor to a type that exists. -/
def advance (p : Program) (t : TypeId) (index : UInt64) : Except Dangling (Option TypeId) := do
  p.checkType t
  (p.advance t index).toList.forM p.checkType
  return p.advance t index

def classify (p : Program) (i : InstId) : Except Dangling (List Found) := do
  match ← instKind p i with
  | .addressComputation => return ((← addressChain p i).map (Found.mk .address)).toList
  | .load =>
    match ← memoryAddress p i with
    | none => return []
    | some address => return ((← constantChain p address).map (Found.mk .load)).toList
  | .store =>
    match ← memoryAddress p i with
    | none => return []
    | some address => return ((← constantChain p address).map (Found.mk .store)).toList
  | .call | .other => return []

def globalOwner (p : Program) (attributeGlobals : Bool) (operand : Value) :
    Except Dangling (Option String) := do
  if attributeGlobals then
    match ← globalType p operand with
    | none => return none
    | some t => structName p t
  else return none

variable {σ : Type} [AccessSink σ]

def follow (p : Program) (attributeGlobals : Bool) (origin : Origin) :
    Option TypeId → List Value → Resolution σ → Except Dangling (Resolution σ)
  | _, [], r => return r
  | none, _ :: _, r => return r.note "type cursor left the aggregate, dropping rest of chain"
  | some t, operand :: rest, r => do
    match ← constantIndex p operand with
    | none => return r.note "non-constant index, dropping rest of chain"
    | some index =>
      let owner ← structName p t
      let global ← globalOwner p attributeGlobals operand
      let next ← advance p t index
      follow p attributeGlobals origin next rest
        ((r.credit owner index origin).credit global index origin)

def resolveChain (p : Program) (attributeGlobals : Bool) (origin : Origin) (chain : Chain)
    (sink : σ) : Except Dangling (Resolution σ) := do
  p.checkType chain.sourceType
  follow p attributeGlobals origin (some chain.sourceType) chain.indices.tail { sink }

def resolve (p : IndexedProgram) (w : Walking σ) (found : Found) : Except Dangling (Walking σ) := do
  let r ← resolveChain p.toProgram w.walker.attributeGlobalOperands found.origin found.chain w.sink
  return { w with
    sink := r.sink
    events := w.events + r.produced
    log := w.log ++ r.log ++
      [{ level := .trace, source := .walk, message := "resolved address chain",
         fields := [("origin", found.origin.name), ("produced", Nat.repr r.produced)] }] }

/-- The instruction has to exist, also where it was visited before. -/
def visit (p : IndexedProgram) (w : Walking σ) (i : InstId) : Except Dangling (Walking σ) := do
  p.checkListed i
  if w.walker.deduplicate then
    if i ∈ w.walker.visited then return w
    else
      (← classify p.toProgram i).foldlM (resolve p)
        { w with walker.visited := i :: w.walker.visited }
  else (← classify p.toProgram i).foldlM (resolve p) w

def enterCallee (p : IndexedProgram) (w : Walking σ) (callee : FunctionId) :
    Except Dangling (Walking σ) := do
  let name ← functionName p.toProgram callee
  (← instructionsOf p.toProgram callee).foldlM (visit p)
    (w.note
      { level := .debug, source := .walk, message := "walking direct callee",
        fields := [("callee", name)] })

def isIntegerConstant (p : IndexedProgram) (v : Value) : Except Dangling Bool := do
  let index ← constantIndex p.toProgram v
  let type ← globalType p.toProgram v
  return index.isSome && type.isNone

def followArgument (p : IndexedProgram) (w : Walking σ) (v : Value) :
    Except Dangling (Walking σ) := do
  if ← isIntegerConstant p v then return w else (p.users v).foldlM (visit p) w

def walkInstruction (p : IndexedProgram) (w : Walking σ) (i : InstId) :
    Except Dangling (Walking σ) := do
  let w ← visit p w i
  if (← instKind p.toProgram i) = .call then
    let w ←
      match ← directCallee p.toProgram i with
      | some callee => enterCallee p w callee
      | none => pure w
    if w.walker.traverseArgumentUses then
      (← callArguments p.toProgram i).foldlM (followArgument p) w
    else return w
  else return w

def walk (walker : Walker) (p : IndexedProgram) (function : FunctionId) (sink : σ) :
    Except Dangling (Walking σ) := do
  (← instructionsOf p.toProgram function).foldlM (walkInstruction p)
    { walker := { walker with visited := [] }, sink }

def isRoot (p : Program) (o : Options) (function : FunctionId) : Except Dangling Bool := do
  let body ← hasBody p function
  let name ← functionName p function
  return body && (o.walksAllFunctions || name == o.entrySymbol)

def runOnFunction (p : IndexedProgram) (pass : Pass) (function : FunctionId) :
    Except Dangling (Bool × Pass) := do
  let name ← functionName p.toProgram function
  if ← isRoot p.toProgram pass.options function then
    let w ← walk pass.walker p function pass.table
    return (true,
      { pass with
        walker := w.walker
        table := w.sink
        walked := pass.walked + 1
        log := pass.log ++ w.log ++
          [{ level := .debug, source := .pass, message := "walked function",
             fields := [("function", name), ("events", Nat.repr w.events)] }] })
  else
    return (false,
      { pass with
        log := pass.log ++
          [{ level := .trace, source := .pass, message := "not a root, skipping",
             fields := [("function", name)] }] })

def analyze (p : IndexedProgram) (o : Options) : Except Dangling Analysis := do
  let functions ← p.functionIds.filterM (hasBody p.toProgram)
  let pass ← functions.foldlM (fun pass function => return (← runOnFunction p pass function).2)
    (Pass.start o)
  return {
    table := pass.table
    log := if pass.walked = 0 then pass.log ++ [noRootsEntry o] else pass.log }

end Strict

end HotFields

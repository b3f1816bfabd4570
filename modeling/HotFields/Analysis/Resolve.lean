import HotFields.Program.Query
import HotFields.Analysis.Access
import HotFields.Log

namespace HotFields

/-- A chain and how it was found. -/
structure Found where
  origin : Origin
  chain : Chain
  deriving DecidableEq

/-- The address chains that an instruction carries: the chain of an address computation, or the
chain of the constant address of a load or a store. -/
def classify (p : Program) (i : InstId) : List Found :=
  match p.instKind i with
  | .addressComputation => ((p.addressChain i).map (Found.mk .address)).toList
  | .load => (((p.memoryAddress i).bind p.constantChain).map (Found.mk .load)).toList
  | .store => (((p.memoryAddress i).bind p.constantChain).map (Found.mk .store)).toList
  | .call | .other => []

/-- How far the resolution of a chain has come. A chain is followed with a type cursor, and every step that indexes
a named structure is an access. -/
structure Resolution (σ : Type) where
  sink : σ
  produced : Nat := 0
  log : Log := []

namespace Resolution

variable {σ : Type} [AccessSink σ]

/-- Records an access to a structure, if there is one. -/
def credit (r : Resolution σ) (owner : Option String) (field : UInt64) (origin : Origin) :
    Resolution σ :=
  match owner with
  | none => r
  | some owner =>
    { r with sink := AccessSink.record r.sink ⟨owner, field, origin⟩, produced := r.produced + 1 }

def note (r : Resolution σ) (message : String) : Resolution σ :=
  { r with log := r.log ++ [{ level := .trace, source := .resolve, message }] }

end Resolution

/-- Where the cursor goes from a type by an index. Pointers, arrays and vectors ignore its value. -/
def Program.advance (p : Program) (t : TypeId) (index : UInt64) : Option TypeId :=
  if (p.typeKind t).isSingleContained then p.elementType t else p.fieldType t index

namespace Chain

variable {σ : Type} [AccessSink σ]

/-- The structure that a global operand belongs to, where global operands are attributed. -/
def globalOwner (p : Program) (attributeGlobals : Bool) (operand : Value) : Option String :=
  if attributeGlobals then (p.globalType operand).bind p.structName else none

/-- Follows index operands from a cursor. The rest of the chain is dropped where the cursor has left
the aggregate and where an index is not constant. -/
def follow (p : Program) (attributeGlobals : Bool) (origin : Origin) :
    Option TypeId → List Value → Resolution σ → Resolution σ
  | _, [], r => r
  | none, _ :: _, r => r.note "type cursor left the aggregate, dropping rest of chain"
  | some t, operand :: rest, r =>
    match p.constantIndex operand with
    | none => r.note "non-constant index, dropping rest of chain"
    | some index =>
      follow p attributeGlobals origin (p.advance t index) rest
        ((r.credit (p.structName t) index origin).credit
          (globalOwner p attributeGlobals operand) index origin)

/-- Records the accesses of a chain. The first index steps over the base pointer and is never
attributed. -/
def resolve (p : Program) (attributeGlobals : Bool) (origin : Origin) (chain : Chain) (sink : σ) :
    Resolution σ :=
  follow p attributeGlobals origin (some chain.sourceType) chain.indices.tail { sink }

/-- The accesses of a chain, in order. -/
def events (p : Program) (attributeGlobals : Bool) (origin : Origin) (chain : Chain) :
    List Access :=
  (resolve p attributeGlobals origin chain []).sink

end Chain

end HotFields

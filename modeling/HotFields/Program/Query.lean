import HotFields.Program.Uses

namespace HotFields

/-- Instruction kinds that matter for member accesses. -/
inductive InstKind where
  | addressComputation
  | load
  | store
  | call
  | other
  deriving DecidableEq

/-- Type kinds that matter for the type cursor. -/
inductive TypeKind where
  | struct
  | pointer
  | array
  | vector
  | other
  deriving DecidableEq

/-- Pointers, arrays and vectors hold exactly one contained type. -/
def TypeKind.isSingleContained : TypeKind → Bool
  | .pointer | .array | .vector => true
  | .struct | .other => false

/-- A source type and the index operands applied to it, in order. -/
structure Chain where
  sourceType : TypeId
  indices : List Value
  deriving DecidableEq

namespace Program

/-- The ids of the functions, declarations included. The functions are counted with 32 bits: past the largest such number
the count begins again at zero. -/
def functionIds (p : Program) : List FunctionId :=
  (List.range p.functions.size.toUInt32.toNat).map fun n => ⟨n.toUInt32⟩

def functionName (p : Program) (id : FunctionId) : String :=
  match p.function? id with
  | some f => f.name
  | none => ""

def hasBody (p : Program) (id : FunctionId) : Bool :=
  match p.function? id with
  | some f => !f.blocks.isEmpty
  | none => false

/-- The instructions listed in a function. Here and in what follows, nothing is known of an id that names nothing.
-/
def instructionsOf (p : Program) (id : FunctionId) : List InstId :=
  match p.function? id with
  | some f => f.listing
  | none => []

/-- The first function with a name. -/
def findFunction (p : Program) (name : String) : Option FunctionId :=
  p.functionIds.find? fun id => p.functionName id == name

def instKind (p : Program) (i : InstId) : InstKind :=
  match p.instruction? i with
  | some (.gep ..) => .addressComputation
  | some (.load ..) => .load
  | some (.store ..) => .store
  | some (.call ..) => .call
  | _ => .other

/-- The chain of an address computation. -/
def addressChain (p : Program) (i : InstId) : Option Chain :=
  match p.instruction? i with
  | some (.gep sourceType _ indices) => some ⟨sourceType, indices⟩
  | _ => none

/-- The address of a load, the destination of a store. -/
def memoryAddress (p : Program) (i : InstId) : Option Value :=
  match p.instruction? i with
  | some (.load _ address) => some address
  | some (.store _ address) => some address
  | _ => none

/-- The chain of a constant address operand. -/
def constantChain (p : Program) : Value → Option Chain
  | .const id => (p.constant? id).map fun c => ⟨c.sourceType, c.indices⟩
  | _ => none

def directCallee (p : Program) (i : InstId) : Option FunctionId :=
  match p.instruction? i with
  | some (.call (.direct function) _) => some function
  | _ => none

def callArguments (p : Program) (i : InstId) : List Value :=
  match p.instruction? i with
  | some (.call _ args) => args
  | _ => []

/-- The operands of an instruction, if it exists. -/
def operandsOf (p : Program) (i : InstId) : Option (List Value) :=
  (p.instruction? i).map Instruction.operands

/-- The integer that an operand stands for at compile time. -/
def constantIndex (p : Program) : Value → Option UInt64
  | .constInt n => some n
  | .global id => (p.global? id).bind Global.initializer
  | _ => none

/-- The declared type of the global that an operand names. -/
def globalType (p : Program) : Value → Option TypeId
  | .global id => (p.global? id).map Global.valueType
  | _ => none

def typeKind (p : Program) (t : TypeId) : TypeKind :=
  match p.type? t with
  | some (.struct ..) => .struct
  | some (.pointer _) => .pointer
  | some (.array ..) => .array
  | some (.vector ..) => .vector
  | _ => .other

/-- The name of a struct type, unless it is literal or its name is empty. -/
def structName (p : Program) (t : TypeId) : Option String :=
  match p.type? t with
  | some (.struct (some name) _) => if name.isEmpty then none else some name
  | _ => none

/-- The type behind a pointer, or the element type of an array or a vector. -/
def elementType (p : Program) (t : TypeId) : Option TypeId :=
  match p.type? t with
  | some (.pointer pointee) => pointee
  | some (.array element _) => some element
  | some (.vector element _) => some element
  | _ => none

/-- The type of a struct field. -/
def fieldType (p : Program) (t : TypeId) (index : UInt64) : Option TypeId :=
  match p.type? t with
  | some (.struct _ fields) => fields[index.toNat]?
  | _ => none

end Program

/-- The listed instructions that use a value. -/
def IndexedProgram.users (p : IndexedProgram) (v : Value) : List InstId :=
  p.uses.users v

end HotFields

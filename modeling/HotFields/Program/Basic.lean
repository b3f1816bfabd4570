namespace HotFields

/-- Position of a type. -/
structure TypeId where
  index : UInt32
  deriving DecidableEq

/-- Position of a global. -/
structure GlobalId where
  index : UInt32
  deriving DecidableEq

/-- Position of a function. -/
structure FunctionId where
  index : UInt32
  deriving DecidableEq

/-- Position of an instruction. -/
structure InstId where
  index : UInt32
  deriving DecidableEq

/-- Position of a constant address. -/
structure ConstId where
  index : UInt32
  deriving DecidableEq

/-- A type definition. A pointer without a pointee is opaque; a struct without a name is literal. -/
inductive TypeDef where
  | void
  | int (bits : UInt32)
  | float (bits : UInt32)
  | pointer (pointee : Option TypeId)
  | array (element : TypeId) (length : UInt64)
  | vector (element : TypeId) (length : UInt32)
  | struct (name : Option String) (fields : List TypeId)
  deriving DecidableEq

/-- An operand. -/
inductive Value where
  | constInt (n : UInt64)
  | global (id : GlobalId)
  | argument (function : FunctionId) (index : UInt32)
  | inst (id : InstId)
  | const (id : ConstId)
  deriving DecidableEq

/-- Integer constants are the operands that carry no use list. -/
def Value.isConstInt : Value → Bool
  | .constInt _ => true
  | _ => false

/-- A global. An index operand that names a global stands for the initializer. -/
structure Global where
  name : String
  valueType : TypeId
  initializer : Option UInt64 := none
  deriving DecidableEq

/-- A block lists its instructions in program order. -/
structure Block where
  label : Option String := none
  insts : List InstId := []
  deriving DecidableEq

/-- A function without blocks is a declaration. -/
structure Function where
  name : String
  params : UInt32 := 0
  blocks : List Block := []
  deriving DecidableEq

/-- The instructions of a function, block after block. -/
def Function.listing (f : Function) : List InstId :=
  f.blocks.flatMap Block.insts

/-- The target of a call. -/
inductive Callee where
  | direct (function : FunctionId)
  | indirect (target : Value)
  deriving DecidableEq

/-- An instruction. Only the kinds that can touch a structure member are told apart. -/
inductive Instruction where
  | gep (sourceType : TypeId) (base : Value) (indices : List Value)
  | load (type : TypeId) (address : Value)
  | store (value address : Value)
  | call (callee : Callee) (args : List Value)
  | other (opcode : String) (operands : List Value)
  deriving DecidableEq

/-- Every operand, in operand order. The target of an indirect call comes last. -/
def Instruction.operands : Instruction → List Value
  | .gep _ base indices => base :: indices
  | .load _ address => [address]
  | .store value address => [value, address]
  | .call (.direct _) args => args
  | .call (.indirect target) args => args ++ [target]
  | .other _ operands => operands

/-- A constant address computation, usable as the address of a load or a store. -/
structure ConstGep where
  sourceType : TypeId
  base : Value
  indices : List Value
  deriving DecidableEq

/-- The five arenas. An object is named by its position in its arena, a 32 bit number. -/
structure Program where
  types : Array TypeDef := #[]
  globals : Array Global := #[]
  functions : Array Function := #[]
  instructions : Array Instruction := #[]
  constants : Array ConstGep := #[]
  deriving DecidableEq

namespace Program

/-- The type with an id, if there is one. -/
def type? (p : Program) (id : TypeId) : Option TypeDef :=
  p.types[id.index.toNat]?

/-- The global with an id, if there is one. -/
def global? (p : Program) (id : GlobalId) : Option Global :=
  p.globals[id.index.toNat]?

/-- The function with an id, if there is one. -/
def function? (p : Program) (id : FunctionId) : Option Function :=
  p.functions[id.index.toNat]?

/-- The instruction with an id, if there is one. -/
def instruction? (p : Program) (id : InstId) : Option Instruction :=
  p.instructions[id.index.toNat]?

/-- The constant address with an id, if there is one. -/
def constant? (p : Program) (id : ConstId) : Option ConstGep :=
  p.constants[id.index.toNat]?

/-- Every instruction id that a block lists, in function, block and program order. -/
def listing (p : Program) : List InstId :=
  p.functions.toList.flatMap Function.listing

end Program

end HotFields

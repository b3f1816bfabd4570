import HotFields.Program.Basic

namespace HotFields

/-- The kinds of objects that an id can name. -/
inductive ReferenceKind where
  | type
  | function
  | global
  | argument
  | instruction
  | constant
  deriving DecidableEq

/-- The word for a kind of reference in messages. -/
def ReferenceKind.word : ReferenceKind → String
  | .type => "type"
  | .function => "function"
  | .global => "global"
  | .argument => "argument"
  | .instruction => "instruction"
  | .constant => "constant"

/-- An id that names no object. -/
structure Dangling where
  kind : ReferenceKind
  id : UInt32
  deriving DecidableEq

def Dangling.message (d : Dangling) : String :=
  d.kind.word ++ " #" ++ Nat.repr d.id.toNat ++ " is referenced but not defined"

namespace Program

def checkType (p : Program) (id : TypeId) : Except Dangling Unit :=
  if id.index.toNat < p.types.size then .ok () else .error ⟨.type, id.index⟩

def checkFunction (p : Program) (id : FunctionId) : Except Dangling Unit :=
  if id.index.toNat < p.functions.size then .ok () else .error ⟨.function, id.index⟩

def checkListed (p : Program) (id : InstId) : Except Dangling Unit :=
  if id.index.toNat < p.instructions.size then .ok () else .error ⟨.instruction, id.index⟩

/-- An argument of a missing function is reported as that function, otherwise by its position. -/
def checkValue (p : Program) : Value → Except Dangling Unit
  | .constInt _ => .ok ()
  | .global id =>
    if id.index.toNat < p.globals.size then .ok () else .error ⟨.global, id.index⟩
  | .argument function index =>
    match p.function? function with
    | none => .error ⟨.function, function.index⟩
    | some f => if index < f.params then .ok () else .error ⟨.argument, index⟩
  | .inst id => p.checkListed id
  | .const id =>
    if id.index.toNat < p.constants.size then .ok () else .error ⟨.constant, id.index⟩

def checkTypeDef (p : Program) : TypeDef → Except Dangling Unit
  | .pointer (some pointee) => p.checkType pointee
  | .array element _ => p.checkType element
  | .vector element _ => p.checkType element
  | .struct _ fields => fields.forM p.checkType
  | _ => .ok ()

def checkConstant (p : Program) (c : ConstGep) : Except Dangling Unit := do
  p.checkType c.sourceType
  p.checkValue c.base
  c.indices.forM p.checkValue

/-- The type or the direct callee comes before the operands. -/
def checkInstruction (p : Program) (i : Instruction) : Except Dangling Unit := do
  match i with
  | .gep sourceType _ _ => p.checkType sourceType
  | .load type _ => p.checkType type
  | .call (.direct function) _ => p.checkFunction function
  | _ => .ok ()
  i.operands.forM p.checkValue

/-- Accepts a program in which every reference resolves. Types, globals, constants, instructions and block lists are
gone through in this order, up to the first id that names nothing. -/
def validate (p : Program) : Except Dangling Unit := do
  p.types.toList.forM p.checkTypeDef
  p.globals.toList.forM fun g => p.checkType g.valueType
  p.constants.toList.forM p.checkConstant
  p.instructions.toList.forM p.checkInstruction
  p.functions.toList.forM fun f => f.blocks.forM fun b => b.insts.forM p.checkListed

end Program

end HotFields

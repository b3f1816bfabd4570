import HotFields.Program.Uses

namespace HotFields

/-- A block of a function under construction. -/
structure BlockRef where
  function : FunctionId
  index : Nat
  deriving DecidableEq

/-- Why a step fails. -/
inductive BuildFault where
  | noFunction (id : FunctionId)
  | noBlock (block : BlockRef)
  deriving DecidableEq

/-- A program under construction. An instruction is appended to the block that it is created in. Each block is
therefore in the order of creation, but the listing of a program is not where its blocks were filled by turns. -/
structure Builder where
  program : Program := {}

namespace Builder

/-- Adds a type. -/
def addType (b : Builder) (definition : TypeDef) : TypeId × Builder :=
  (⟨b.program.types.size.toUInt32⟩,
    { b with program.types := b.program.types.push definition })

/-- Replaces the fields of a struct. Other types are left alone. -/
def setStructBody (b : Builder) (t : TypeId) (fields : List TypeId) : Builder :=
  { b with
    program.types := b.program.types.modify t.index.toNat fun
      | .struct name _ => .struct name fields
      | other => other }

/-- Adds a global. -/
def addGlobal (b : Builder) (g : Global) : Value × Builder :=
  (.global ⟨b.program.globals.size.toUInt32⟩,
    { b with program.globals := b.program.globals.push g })

/-- Adds a function without blocks. -/
def declareFunction (b : Builder) (name : String) (params : UInt32) : FunctionId × Builder :=
  (⟨b.program.functions.size.toUInt32⟩,
    { b with program.functions := b.program.functions.push { name, params } })

/-- Appends an empty block to a function. -/
def appendBlock (b : Builder) (function : FunctionId) (label : Option String) :
    Except BuildFault (BlockRef × Builder) :=
  match b.program.function? function with
  | none => .error (.noFunction function)
  | some f =>
    .ok (⟨function, f.blocks.length⟩,
      { b with
        program.functions := b.program.functions.modify function.index.toNat fun f =>
          { f with blocks := f.blocks ++ [{ label }] } })

/-- Adds a function with one empty block that is labelled as its entry. -/
def defineFunction (b : Builder) (name : String) (params : UInt32) :
    Except BuildFault ((FunctionId × BlockRef) × Builder) := do
  let (id, b) := b.declareFunction name params
  let (entry, b) ← b.appendBlock id (some "entry")
  return ((id, entry), b)

/-- Adds a constant address. It is listed in no block. -/
def addConstant (b : Builder) (c : ConstGep) : Value × Builder :=
  (.const ⟨b.program.constants.size.toUInt32⟩,
    { b with program.constants := b.program.constants.push c })

/-- Adds an instruction at the end of a block. -/
def addInstruction (b : Builder) (block : BlockRef) (i : Instruction) :
    Except BuildFault (InstId × Builder) :=
  match b.program.function? block.function with
  | none => .error (.noFunction block.function)
  | some f =>
    if block.index < f.blocks.length then
      let id : InstId := ⟨b.program.instructions.size.toUInt32⟩
      .ok (id,
        { b with
          program.instructions := b.program.instructions.push i
          program.functions := b.program.functions.modify block.function.index.toNat fun f =>
            { f with
              blocks := f.blocks.modify block.index fun k =>
                { k with insts := k.insts ++ [id] } } })
    else .error (.noBlock block)

/-- The finished program with its use lists. -/
def finish (b : Builder) : IndexedProgram :=
  b.program.index

/-- The steps of a construction. -/
inductive Step where
  | type (definition : TypeDef)
  | structBody (t : TypeId) (fields : List TypeId)
  | global (g : Global)
  | define (name : String) (params : UInt32)
  | declare (name : String) (params : UInt32)
  | block (function : FunctionId) (label : Option String)
  | argument (function : FunctionId) (index : UInt32)
  | constant (c : ConstGep)
  | instruction (block : BlockRef) (i : Instruction)

/-- What a step returns. -/
inductive Handle where
  | none
  | type (id : TypeId)
  | value (v : Value)
  | definition (id : FunctionId) (entry : BlockRef)
  | function (id : FunctionId)
  | block (ref : BlockRef)
  | inst (id : InstId)

/-- Performs one step. One that names a function or a block that does not exist fails. -/
def step (b : Builder) : Step → Except BuildFault (Handle × Builder)
  | .type definition =>
    let (id, b) := b.addType definition
    .ok (.type id, b)
  | .structBody t fields => .ok (.none, b.setStructBody t fields)
  | .global g =>
    let (v, b) := b.addGlobal g
    .ok (.value v, b)
  | .define name params => do
    let ((id, entry), b) ← b.defineFunction name params
    return (.definition id entry, b)
  | .declare name params =>
    let (id, b) := b.declareFunction name params
    .ok (.function id, b)
  | .block function label => do
    let (ref, b) ← b.appendBlock function label
    return (.block ref, b)
  | .argument function index => .ok (.value (.argument function index), b)
  | .constant c =>
    let (v, b) := b.addConstant c
    .ok (.value v, b)
  | .instruction block i => do
    let (id, b) ← b.addInstruction block i
    return (.inst id, b)

/-- A construction: the handles returned so far, and the program or the fault that ended it. -/
structure Construction where
  handles : List Handle
  outcome : Except BuildFault Builder

/-- Performs steps until one fails. -/
def run (b : Builder) : List Step → Construction
  | [] => ⟨[], .ok b⟩
  | s :: rest =>
    match b.step s with
    | .error fault => ⟨[], .error fault⟩
    | .ok (handle, b) =>
      let next := run b rest
      ⟨handle :: next.handles, next.outcome⟩

end Builder

end HotFields

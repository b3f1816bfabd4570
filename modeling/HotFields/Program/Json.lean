import HotFields.Json.Record
import HotFields.Json.Printer
import HotFields.Program.Record
import HotFields.Program.Uses
import HotFields.Program.Validate

namespace HotFields

namespace Json.Reader

def typeId : Reader TypeId := TypeId.mk <$> uint32

def functionId : Reader FunctionId := FunctionId.mk <$> uint32

def instId : Reader InstId := InstId.mk <$> uint32

/-- Nesting left inside a type or an instruction: the program and the list that holds it are open, and
so is the value itself. -/
def innerDepth : Nat := nestingLimit - 3

/-- Takes a type. Its tag may stand at any place, so the type is taken as a whole before it is decoded. -/
def typeDef : Reader TypeDef := do
  let (name, content) ← tagged "internally tagged enum TypeDef" "kind" TypeDef.variants innerDepth
  ofMismatch (TypeDef.ofTagged name content)

def instruction : Reader Instruction := do
  let (name, content) ←
    tagged "internally tagged enum Instruction" "op" Instruction.variants innerDepth
  ofMismatch (Instruction.ofTagged name content)

/-- Takes an operand of a constant address. -/
def value : Reader Value :=
  variant Value.variants Value.bareMismatch fun name =>
    if name = "const_int" then Value.constInt <$> uint64
    else if name = "global" then (fun n => .global ⟨n⟩) <$> uint32
    else if name = "argument" then
      (fun (f, n) => .argument f n) <$>
        record "struct variant Value::Argument" (Value.argumentFields functionId uint32) (⟨0⟩, 0)
    else if name = "inst" then (fun n => .inst ⟨n⟩) <$> uint32
    else (fun n => .const ⟨n⟩) <$> uint32

def constGep : Reader ConstGep :=
  record "struct ConstGep" (ConstGep.readFields typeId value (list value)) ConstGep.draft

def global : Reader Global :=
  record "struct Global" (Global.readFields text typeId (option uint64)) Global.draft

def block : Reader Block :=
  record "struct Block" (Block.readFields (option text) (list instId)) {}

def function : Reader Function :=
  record "struct Function" (Function.readFields text uint32 (list block)) Function.draft

def program : Reader Program :=
  record "struct Module"
    (Program.readFields (list typeDef) (list global) (list function) (list instruction)
      (list constGep))
    {}

end Json.Reader

/-- Reads the arenas of a program. References are not checked. -/
def Program.readJson (text : String) : Except Json.Fault Program :=
  Json.Reader.program.run text

namespace Datum

def ofOption {α : Type} (f : α → Datum) : Option α → Datum
  | none => .null
  | some a => f a

def ofUInt32 (n : UInt32) : Datum := .natural n.toNat

def ofUInt64 (n : UInt64) : Datum := .natural n.toNat

/-- A record with texts as keys. -/
def fields (entries : List (String × Datum)) : Datum :=
  .record (entries.map fun (key, d) => (.text key, d))

end Datum

def TypeId.toDatum (t : TypeId) : Datum := .ofUInt32 t.index

def TypeDef.toDatum : TypeDef → Datum
  | .void => .fields [("kind", .text "void")]
  | .int bits => .fields [("kind", .text "int"), ("bits", .ofUInt32 bits)]
  | .float bits => .fields [("kind", .text "float"), ("bits", .ofUInt32 bits)]
  | .pointer pointee =>
    .fields [("kind", .text "pointer"), ("pointee", .ofOption TypeId.toDatum pointee)]
  | .array element length =>
    .fields [("kind", .text "array"), ("element", element.toDatum), ("len", .ofUInt64 length)]
  | .vector element length =>
    .fields [("kind", .text "vector"), ("element", element.toDatum), ("len", .ofUInt32 length)]
  | .struct name fields =>
    .fields [("kind", .text "struct"), ("name", .ofOption .text name),
      ("fields", .list (fields.map TypeId.toDatum))]

def Value.toDatum : Value → Datum
  | .constInt n => .fields [("const_int", .ofUInt64 n)]
  | .global id => .fields [("global", .ofUInt32 id.index)]
  | .argument function index =>
    .fields [("argument",
      .fields [("function", .ofUInt32 function.index), ("index", .ofUInt32 index)])]
  | .inst id => .fields [("inst", .ofUInt32 id.index)]
  | .const id => .fields [("const", .ofUInt32 id.index)]

def Value.listToDatum (values : List Value) : Datum := .list (values.map Value.toDatum)

def Callee.toDatum : Callee → Datum
  | .direct function => .fields [("direct", .ofUInt32 function.index)]
  | .indirect target => .fields [("indirect", target.toDatum)]

def Instruction.toDatum : Instruction → Datum
  | .gep sourceType base indices =>
    .fields [("op", .text "gep"), ("source_type", sourceType.toDatum), ("base", base.toDatum),
      ("indices", Value.listToDatum indices)]
  | .load type address =>
    .fields [("op", .text "load"), ("ty", type.toDatum), ("address", address.toDatum)]
  | .store value address =>
    .fields [("op", .text "store"), ("value", value.toDatum), ("address", address.toDatum)]
  | .call callee args =>
    .fields [("op", .text "call"), ("callee", callee.toDatum), ("args", Value.listToDatum args)]
  | .other opcode operands =>
    .fields [("op", .text "other"), ("opcode", .text opcode),
      ("operands", Value.listToDatum operands)]

def Global.toDatum (g : Global) : Datum :=
  .fields [("name", .text g.name), ("value_type", g.valueType.toDatum),
    ("initializer", .ofOption .ofUInt64 g.initializer)]

def Block.toDatum (b : Block) : Datum :=
  .fields [("label", .ofOption .text b.label),
    ("insts", .list (b.insts.map fun i => .ofUInt32 i.index))]

def Function.toDatum (f : Function) : Datum :=
  .fields [("name", .text f.name), ("params", .ofUInt32 f.params),
    ("blocks", .list (f.blocks.map Block.toDatum))]

def ConstGep.toDatum (c : ConstGep) : Datum :=
  .fields [("source_type", c.sourceType.toDatum), ("base", c.base.toDatum),
    ("indices", Value.listToDatum c.indices)]

def Program.toDatum (p : Program) : Datum :=
  .fields [("types", .list (p.types.toList.map TypeDef.toDatum)),
    ("globals", .list (p.globals.toList.map Global.toDatum)),
    ("functions", .list (p.functions.toList.map Function.toDatum)),
    ("instructions", .list (p.instructions.toList.map Instruction.toDatum)),
    ("constants", .list (p.constants.toList.map ConstGep.toDatum))]

/-- Writes the arenas of a program. Everything is written, defaults too. -/
def Program.renderJson (p : Program) : String :=
  Json.render p.toDatum

end HotFields

import HotFields.Program.Record
import HotFields.Yaml.Decode

namespace HotFields

namespace Yaml.Decoder

def typeId : Read TypeId := fun n => TypeId.mk <$> uint32 false n

def functionId : Read FunctionId := fun n => FunctionId.mk <$> uint32 false n

def instId : Read InstId := fun n => InstId.mk <$> uint32 false n

/-- Nesting left inside a type or an instruction: the program and the list that holds it are open, and
so is the value itself. -/
def innerDepth : Nat := nestingLimit - 3

def typeDef : Read TypeDef := fun n => do
  let (name, content) ← tagged "kind" TypeDef.variants innerDepth n
  ofMismatch (TypeDef.ofTagged name content)

def instruction : Read Instruction := fun n => do
  let (name, content) ← tagged "op" Instruction.variants innerDepth n
  ofMismatch (Instruction.ofTagged name content)

/-- An operand of a constant address, written as a tag. Operands of instructions are mappings with one entry. -/
def value : Read Value :=
  variant Value.variants fun name n =>
    if name = "const_int" then Value.constInt <$> uint64 true n
    else if name = "global" then (fun id => .global ⟨id⟩) <$> uint32 true n
    else if name = "argument" then
      (fun (f, index) => .argument f index) <$>
        record (Value.argumentFields functionId (uint32 false)) (⟨0⟩, 0) n
    else if name = "inst" then (fun id => .inst ⟨id⟩) <$> uint32 true n
    else (fun id => .const ⟨id⟩) <$> uint32 true n

def constGep : Read ConstGep :=
  record (ConstGep.readFields typeId value (list value)) ConstGep.draft

def global : Read Global :=
  record (Global.readFields text typeId (option (uint64 false))) Global.draft

def block : Read Block :=
  record (Block.readFields (option text) (list instId)) {}

def function : Read Function :=
  record (Function.readFields text (uint32 false) (list block)) Function.draft

def program : Read Program :=
  record
    (Program.readFields (list typeDef) (list global) (list function) (list instruction)
      (list constGep))
    {}

end Yaml.Decoder

/-- Reads the arenas of a program. References are not checked. -/
def Program.readYaml (text : String) : Option Program :=
  Yaml.Decoder.run Yaml.Decoder.program text

end HotFields

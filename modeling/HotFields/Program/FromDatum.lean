import HotFields.Datum
import HotFields.Program.Basic

namespace HotFields

/-- The names of the type variants. -/
def TypeDef.variants : List String :=
  ["void", "int", "float", "pointer", "array", "vector", "struct"]

/-- The names of the operand variants. -/
def Value.variants : List String :=
  ["const_int", "global", "argument", "inst", "const"]

/-- The names of the callee variants. -/
def Callee.variants : List String := ["direct", "indirect"]

/-- The names of the instruction variants. -/
def Instruction.variants : List String := ["gep", "load", "store", "call", "other"]

/-- What a bare variant name lacks. An argument has fields, every other variant one content. -/
def Value.bareMismatch (name : String) : Mismatch :=
  .invalidType .unitVariant (if name = "argument" then "struct variant" else "newtype variant")

namespace Datum

def asTypeId : Read TypeId := fun d => d.asUInt32.map TypeId.mk

def asFunctionId : Read FunctionId := fun d => d.asUInt32.map FunctionId.mk

/-- The function and the position of an argument operand. -/
def asArgument : Read (FunctionId × UInt32) :=
  asRecord "struct variant Value::Argument" "struct variant"
    [⟨"function", fun draft d => d.asFunctionId.map fun f => (f, draft.2), true⟩,
     ⟨"index", fun draft d => d.asUInt32.map fun n => (draft.1, n), true⟩]
    (⟨0⟩, 0)

/-- An operand. Like a callee it is written as a variant with its content, where types and instructions are tagged.
-/
def asValue : Read Value := fun d => do
  match ← d.asVariant Value.variants with
  | (name, none) => throw (Value.bareMismatch name)
  | (name, some content) =>
    if name = "const_int" then content.asUInt64.map Value.constInt
    else if name = "global" then content.asUInt32.map fun n => .global ⟨n⟩
    else if name = "argument" then content.asArgument.map fun (f, n) => .argument f n
    else if name = "inst" then content.asUInt32.map fun n => .inst ⟨n⟩
    else content.asUInt32.map fun n => .const ⟨n⟩

def asCallee : Read Callee := fun d => do
  match ← d.asVariant Callee.variants with
  | (_, none) => throw (.invalidType .unitVariant "newtype variant")
  | (name, some content) =>
    if name = "direct" then content.asFunctionId.map Callee.direct
    else content.asValue.map Callee.indirect

/-- The content of a variant without fields: an empty list, or any record. -/
def asNothing : Read Unit
  | .list [] => .ok ()
  | .list items => .error (.invalidLength items.length (elementCount 0 ++ " in sequence"))
  | .record _ => .ok ()
  | d => .error (.invalidType d.unexpected "unit variant")

/-- The fields of a type variant. -/
def asTypeFields {α : Type} (variant : String) (fields : List (ReadField α)) (draft : α) : Read α :=
  let shape := "struct variant TypeDef::" ++ variant
  asRecord shape shape fields draft

/-- The fields of an instruction variant. -/
def asInstructionFields {α : Type} (variant : String) (fields : List (ReadField α)) (draft : α) :
    Read α :=
  let shape := "struct variant Instruction::" ++ variant
  asRecord shape shape fields draft

end Datum

/-- The type of a variant with its fields. -/
def TypeDef.ofTagged (name : String) (content : Datum) : Except Mismatch TypeDef :=
  if name = "void" then content.asNothing.map fun _ => .void
  else if name = "int" then
    (content.asTypeFields "Int" [⟨"bits", fun _ d => d.asUInt32, true⟩] 0).map TypeDef.int
  else if name = "float" then
    (content.asTypeFields "Float" [⟨"bits", fun _ d => d.asUInt32, true⟩] 0).map TypeDef.float
  else if name = "pointer" then
    (content.asTypeFields "Pointer"
      [⟨"pointee", fun _ d => d.asOption Datum.asTypeId, false⟩] none).map TypeDef.pointer
  else if name = "array" then
    (content.asTypeFields "Array"
      [⟨"element", fun draft d => d.asTypeId.map fun t => (t, draft.2), true⟩,
       ⟨"len", fun draft d => d.asUInt64.map fun n => (draft.1, n), true⟩]
      ((⟨0⟩, 0) : TypeId × UInt64)).map fun (element, length) => .array element length
  else if name = "vector" then
    (content.asTypeFields "Vector"
      [⟨"element", fun draft d => d.asTypeId.map fun t => (t, draft.2), true⟩,
       ⟨"len", fun draft d => d.asUInt32.map fun n => (draft.1, n), true⟩]
      ((⟨0⟩, 0) : TypeId × UInt32)).map fun (element, length) => .vector element length
  else
    (content.asTypeFields "Struct"
      [⟨"name", fun draft d => (d.asOption Datum.asText).map fun s => (s, draft.2), false⟩,
       ⟨"fields", fun draft d => (d.asList Datum.asTypeId).map fun ts => (draft.1, ts), false⟩]
      ((none, []) : Option String × List TypeId)).map fun (name, fields) => .struct name fields

/-- The fields of an address computation. -/
def ConstGep.readFields {m : Type → Type} [Functor m] (typeId : m TypeId) (value : m Value)
    (values : m (List Value)) : List (Field m ConstGep) :=
  [⟨"source_type", fun draft => (fun t => { draft with sourceType := t }) <$> typeId, true⟩,
   ⟨"base", fun draft => (fun v => { draft with base := v }) <$> value, true⟩,
   ⟨"indices", fun draft => (fun vs => { draft with indices := vs }) <$> values, true⟩]

/-- An address computation with nothing filled in. -/
def ConstGep.draft : ConstGep := ⟨⟨0⟩, .constInt 0, []⟩

/-- The instruction of a variant with its fields. -/
def Instruction.ofTagged (name : String) (content : Datum) : Except Mismatch Instruction :=
  if name = "gep" then
    (content.asInstructionFields "Gep"
      (ConstGep.readFields (m := ReaderT Datum (Except Mismatch)) Datum.asTypeId Datum.asValue
        (Datum.asList Datum.asValue))
      ConstGep.draft).map fun g => .gep g.sourceType g.base g.indices
  else if name = "load" then
    (content.asInstructionFields "Load"
      [⟨"ty", fun draft d => d.asTypeId.map fun t => (t, draft.2), true⟩,
       ⟨"address", fun draft d => d.asValue.map fun v => (draft.1, v), true⟩]
      ((⟨0⟩, .constInt 0) : TypeId × Value)).map fun (type, address) => .load type address
  else if name = "store" then
    (content.asInstructionFields "Store"
      [⟨"value", fun draft d => d.asValue.map fun v => (v, draft.2), true⟩,
       ⟨"address", fun draft d => d.asValue.map fun v => (draft.1, v), true⟩]
      ((.constInt 0, .constInt 0) : Value × Value)).map fun (value, address) =>
        .store value address
  else if name = "call" then
    (content.asInstructionFields "Call"
      [⟨"callee", fun draft d => d.asCallee.map fun c => (c, draft.2), true⟩,
       ⟨"args", fun draft d => (d.asList Datum.asValue).map fun vs => (draft.1, vs), false⟩]
      ((.direct ⟨0⟩, []) : Callee × List Value)).map fun (callee, args) => .call callee args
  else
    (content.asInstructionFields "Other"
      [⟨"opcode", fun draft d => d.asText.map fun s => (s, draft.2), true⟩,
       ⟨"operands", fun draft d => (d.asList Datum.asValue).map fun vs => (draft.1, vs), false⟩]
      (("", []) : String × List Value)).map fun (opcode, operands) => .other opcode operands

end HotFields

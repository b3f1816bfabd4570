import HotFields.Program.FromDatum

namespace HotFields

variable {m : Type → Type} [Functor m]

def Global.draft : Global := ⟨"", ⟨0⟩, none⟩

/-- The fields of a global, read by `m`. Every text format has its own `m`, and they share the description of a
record. -/
def Global.readFields (text : m String) (typeId : m TypeId) (initializer : m (Option UInt64)) :
    List (Field m Global) :=
  [⟨"name", fun draft => (fun s => { draft with name := s }) <$> text, true⟩,
   ⟨"value_type", fun draft => (fun t => { draft with valueType := t }) <$> typeId, true⟩,
   ⟨"initializer", fun draft => (fun n => { draft with initializer := n }) <$> initializer, false⟩]

def Block.readFields (label : m (Option String)) (insts : m (List InstId)) :
    List (Field m Block) :=
  [⟨"label", fun draft => (fun s => { draft with label := s }) <$> label, false⟩,
   ⟨"insts", fun draft => (fun is => { draft with insts := is }) <$> insts, false⟩]

def Function.draft : Function := ⟨"", 0, []⟩

def Function.readFields (text : m String) (params : m UInt32) (blocks : m (List Block)) :
    List (Field m Function) :=
  [⟨"name", fun draft => (fun s => { draft with name := s }) <$> text, true⟩,
   ⟨"params", fun draft => (fun n => { draft with params := n }) <$> params, false⟩,
   ⟨"blocks", fun draft => (fun bs => { draft with blocks := bs }) <$> blocks, false⟩]

/-- The fields of an argument operand. -/
def Value.argumentFields (function : m FunctionId) (index : m UInt32) :
    List (Field m (FunctionId × UInt32)) :=
  [⟨"function", fun draft => (fun f => (f, draft.2)) <$> function, true⟩,
   ⟨"index", fun draft => (fun n => (draft.1, n)) <$> index, true⟩]

def Program.readFields (types : m (List TypeDef)) (globals : m (List Global))
    (functions : m (List Function)) (instructions : m (List Instruction))
    (constants : m (List ConstGep)) : List (Field m Program) :=
  [⟨"types", fun draft => (fun xs => { draft with types := xs.toArray }) <$> types, false⟩,
   ⟨"globals", fun draft => (fun xs => { draft with globals := xs.toArray }) <$> globals, false⟩,
   ⟨"functions", fun draft => (fun xs => { draft with functions := xs.toArray }) <$> functions,
     false⟩,
   ⟨"instructions",
     fun draft => (fun xs => { draft with instructions := xs.toArray }) <$> instructions, false⟩,
   ⟨"constants", fun draft => (fun xs => { draft with constants := xs.toArray }) <$> constants,
     false⟩]

end HotFields

import HotFields.Yaml.Typed

namespace HotFields.Yaml

/-- Reads from a document and counts the aliases followed. -/
abbrev Decoder := ReaderT Document (StateT Nat Option)

namespace Decoder

variable {α : Type}

/-- Aliases that may be followed for every step of the document, so that a small text cannot stand for a huge value.
-/
def aliasesPerStep : Nat := 100

/-- The node with its anchor taken off. -/
def bare : Node → Node
  | .anchored _ n => bare n
  | n => n

/-- The node itself, or the one that it is an alias of. Aliases are followed where something is wanted and passed
over where nothing is. -/
def follow (n : Node) : Decoder Node := do
  match bare n with
  | .alias id => do
    let document ← read
    let count ← modifyGet fun count => (count + 1, count + 1)
    guard (count ≤ document.steps * aliasesPerStep)
    match document.anchors.lookup id with
    | some target => return bare target
    | none => failure
  | n => return n

/-- Reads a node. -/
abbrev Read (α : Type) := Node → Decoder α

/-- The text of any scalar. -/
def text : Read String := fun n => do
  match ← follow n with
  | .scalar _ _ text => return text
  | _ => failure

/-- An integer below a bound. It is written plain, or as a literal block with the tag of integers, unless
its tag already names a variant. -/
def below (bound : Nat) (tagged : Bool) : Read Nat := fun n => do
  match ← follow n with
  | .scalar tag style text =>
    guard (style = .plain || (style = .literal && !tagged && tag = some (coreTag "int")))
    match unsigned? text with
    | some value => if value < bound then return value else failure
    | none => failure
  | _ => failure

def uint32 (tagged : Bool) : Read UInt32 := fun n => Nat.toUInt32 <$> below UInt32.size tagged n

def uint64 (tagged : Bool) : Read UInt64 := fun n => Nat.toUInt64 <$> below UInt64.size tagged n

/-- A value that may be null. Only a plain scalar is null; a tag other than that of null makes it a
value. -/
def option (value : Read α) : Read (Option α) := fun n => do
  match ← follow n with
  | .scalar tag style text =>
    let n : Node := .scalar tag style text
    if style ≠ .plain then some <$> value n
    else
      match tag with
      | some tag =>
        if tag = coreTag "null" then if nullForm text then return none else failure
        else some <$> value n
      | none => if text.isEmpty || nullForm text then return none else some <$> value n
  | n => some <$> value n

/-- Whether a node is a plain scalar without text, which stands for an empty collection. -/
def isEmpty : Node → Bool
  | .scalar _ style text => style = .plain && text.isEmpty
  | _ => false

/-- A sequence, or nothing at all. -/
def list (item : Read α) : Read (List α) := fun n => do
  match ← follow n with
  | .sequence _ items => items.mapM item
  | n => if isEmpty n then return [] else failure

/-- Fields that are read from nodes. -/
abbrev ReadField (α : Type) := Field (ReaderT Node Decoder) α

/-- Fills a draft from entries. Unknown keys are passed over with their values. -/
def fillEntries (fields : List (ReadField α)) :
    List (Node × Node) → List String → α → Decoder α
  | [], seen, draft => do
    guard (Field.firstMissing fields seen).isNone
    return draft
  | (key, value) :: rest, seen, draft => do
    let name ← text key
    match fields.find? fun f => f.name == name with
    | none => fillEntries fields rest seen draft
    | some f => do
      guard (!seen.contains f.name)
      fillEntries fields rest (f.name :: seen) (← f.fill draft value)

/-- A mapping with the fields of a record, or nothing at all. -/
def record (fields : List (ReadField α)) (draft : α) : Read α := fun n => do
  match ← follow n with
  | .mapping _ entries => fillEntries fields entries [] draft
  | n => if isEmpty n then fillEntries fields [] [] draft else failure

def tagOf : Node → Option String
  | .scalar tag _ _ => tag
  | .sequence tag _ => tag
  | .mapping tag _ => tag
  | _ => none

/-- The name in a tag of the document's own, which starts with an exclamation mark. -/
def localName? (tag : Option String) : Option String :=
  match tag.map String.toList with
  | some ['!'] => some "!"
  | some ('!' :: rest) => some (String.ofList rest)
  | _ => none

/-- A variant whose name is the tag of its content. -/
def variant (known : List String) (content : String → Read α) : Read α := fun n => do
  let n ← follow n
  match localName? (tagOf n) with
  | some name => do
    guard (known.contains name)
    content name n
  | none => failure

/-- A value without tags of the document's own. The depth is the number of nested collections allowed. -/
def datum : Nat → Read Datum
  | 0, n => do scalarOf (← follow n)
  | depth + 1, n => do
    let n ← follow n
    guard (localName? (tagOf n)).isNone
    match n with
    | .sequence _ items => .list <$> items.mapM (datum depth)
    | .mapping _ entries =>
      .record <$> entries.mapM fun (key, value) => do
        return (← datum depth key, ← datum depth value)
    | n => scalarOf n
where
  /-- The value of a scalar. -/
  scalarOf : Node → Decoder Datum
    | .scalar tag style text => do
      guard (localName? tag).isNone
      match typedScalar tag style text with
      | some d => return d
      | none => failure
    | _ => failure

/-- The name of a variant. -/
def variantName (known : List String) : Read String := fun n => do
  let name ← text n
  guard (known.contains name)
  return name

/-- Reads the entries of a tagged value: the tag, and the others undecoded. -/
def taggedEntries (tag : String) (known : List String) (depth : Nat) :
    List (Node × Node) → Decoder (Option String × List (Datum × Datum))
  | [] => return (none, [])
  | (key, value) :: rest => do
    match ← datum depth key with
    | .text s =>
      if s = tag then do
        let name ← variantName known value
        let (other, entries) ← taggedEntries tag known depth rest
        guard other.isNone
        return (some name, entries)
      else do
        let d ← datum depth value
        let (name, entries) ← taggedEntries tag known depth rest
        return (name, (.text s, d) :: entries)
    | key => do
      let d ← datum depth value
      let (name, entries) ← taggedEntries tag known depth rest
      return (name, (key, d) :: entries)

/-- A value that is tagged with its variant: a mapping with the tag among its entries, or a sequence that
starts with it. The rest is returned undecoded. -/
def tagged (tag : String) (known : List String) (depth : Nat) : Node → Decoder (String × Datum) :=
  fun n => do
    let n ← follow n
    guard (localName? (tagOf n)).isNone
    match n with
    | .mapping _ entries => do
      match ← taggedEntries tag known depth entries with
      | (some name, entries) => return (name, .record entries)
      | (none, _) => failure
    | .sequence _ (first :: rest) => do
      let name ← variantName known first
      return (name, .list (← rest.mapM (datum depth)))
    | _ => failure

/-- Takes a value whose content was read undecoded. -/
def ofMismatch (result : Except Mismatch α) : Decoder α :=
  match result with
  | .ok a => return a
  | .error _ => failure

end Decoder

/-- Reads the root of a text. -/
def Decoder.run {α : Type} (reader : Decoder.Read α) (text : String) : Option α := do
  let document ← parse text
  let (a, _) ← reader (document.root.getD Node.absent) document 0
  return a

/-- The number of nested collections that a document may have. -/
def nestingLimit : Nat := 128

end HotFields.Yaml

import HotFields.Json.Skip

namespace HotFields.Json.Reader

variable {α : Type}

/-- Fields that are read from text. -/
abbrev ReadField (α : Type) := Field Reader α

/-- Takes the fields of a record from a list, in order. -/
def fillItems (wanted : String) : Nat → List (ReadField α) → Bool → α → Reader α
  | _, [], _, draft => pure draft
  | position, f :: fields, first, draft => do
    if ← hasItem first then
      fillItems wanted (position + 1) fields false (← f.fill draft)
    else if f.required then mismatch (.invalidLength position wanted)
    else fillItems wanted position fields first draft

/-- Takes one member of a record. Unknown ones are skipped. -/
def fillMember (fields : List (ReadField α)) (key : String) (state : List String × α) :
    Reader (List String × α) := do
  match fields.find? fun f => f.name == key with
  | none => do
    colon
    skip
    return state
  | some f =>
    if state.1.contains f.name then mismatch (.duplicateField f.name)
    else do
      colon
      return (f.name :: state.1, ← f.fill state.2)

/-- Takes the members of a record after its opening brace. -/
def recordMembers (fields : List (ReadField α)) (draft : α) : Reader α := do
  let (seen, filled) ← object (fillMember fields) ([], draft)
  match Field.firstMissing fields seen with
  | some name => mismatch (.missingField name)
  | none => return filled

/-- Takes a record with a shape name, from an object or from a list. -/
def record (shape : String) (fields : List (ReadField α)) (draft : α) : Reader α := do
  match ← peek with
  | some '[' => do
    advance
    let filled ← fillItems (shape ++ " with " ++ elementCount fields.length) 0 fields true draft
    endList
    return filled
  | some '{' => do
    advance
    recordMembers fields draft
  | _ => refuse shape

/-- Takes the only member of a variant after its opening brace, and the closing brace. -/
def variantMember (known : List String) (content : String → Reader α) : Reader α := do
  let name ← variantName known
  colon
  let a ← content name
  match ← peek with
  | none => truncated
  | some '}' => advance; return a
  | some _ => malformed

/-- Takes a variant and its content: an object with the variant's name as its only key. A bare name
has no content, which `bare` refuses. -/
def variant (known : List String) (bare : String → Mismatch) (content : String → Reader α) :
    Reader α := do
  match ← peek with
  | none => truncated
  | some '{' => do
    advance
    variantMember known content
  | some '"' => do
    let name ← variantName known
    mismatch (bare name)
  | some _ => malformed

/-- What is known of a tagged value before its end: the tag, and the other members in reverse. -/
structure TaggedDraft where
  tag : Option String := none
  entries : List (Datum × Datum) := []

/-- Takes one member of a tagged value. -/
def taggedMember (tag : String) (known : List String) (depth : Nat) (key : String)
    (draft : TaggedDraft) : Reader TaggedDraft := do
  if key = tag then
    if draft.tag.isSome then mismatch (.duplicateField tag)
    else do
      colon
      return { draft with tag := some (← variantName known) }
  else do
    colon
    return { draft with entries := (.text key, ← datum depth) :: draft.entries }

/-- Takes the members of a tagged value after its opening brace. -/
def taggedMembers (tag : String) (known : List String) (depth : Nat) : Reader (String × Datum) := do
  let draft ← object (taggedMember tag known depth) {}
  match draft.tag with
  | none => mismatch (.missingField tag)
  | some name => return (name, .record draft.entries.reverse)

/-- Takes a value that is tagged with its variant: an object with the tag among its members, or a list
that starts with it. The rest is returned undecoded. -/
def tagged (shape tag : String) (known : List String) (depth : Nat) : Reader (String × Datum) := do
  match ← peek with
  | some '[' => do
    advance
    if ← hasItem true then
      let name ← variantName known
      return (name, .list (← items false (datum depth)))
    else mismatch (.missingField tag)
  | some '{' => do
    advance
    taggedMembers tag known depth
  | _ => refuse shape

end HotFields.Json.Reader

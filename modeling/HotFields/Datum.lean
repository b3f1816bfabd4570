import HotFields.Number.Shortest
import HotFields.Text.Quoted

namespace HotFields

/-- A value of a data format. `negative n` was written with a minus sign and stands for `-n`. -/
inductive Datum where
  | null
  | bool (b : Bool)
  | natural (n : Nat)
  | negative (n : Nat)
  | float (x : Binary64)
  | text (s : String)
  | list (items : List Datum)
  | record (entries : List (Datum × Datum))

/-- What was found where something else was wanted. -/
inductive Unexpected where
  | null
  | bool (b : Bool)
  | natural (n : Nat)
  | negative (n : Nat)
  | float (x : Binary64)
  | text (s : String)
  | list
  | record
  | unitVariant
  deriving DecidableEq

def Unexpected.describe (layout : DecimalLayout) : Unexpected → String
  | .null => "null"
  | .bool b => "boolean `" ++ (if b then "true" else "false") ++ "`"
  | .natural n => "integer `" ++ Nat.repr n ++ "`"
  | .negative n => "integer `-" ++ Nat.repr n ++ "`"
  | .float x => "floating point `" ++ layout.text x ++ "`"
  | .text s => "string " ++ Text.quoted s
  | .list => "sequence"
  | .record => "map"
  | .unitVariant => "unit variant"

/-- Why a value is not what was wanted. -/
inductive Mismatch where
  | missingField (name : String)
  | duplicateField (name : String)
  | unknownVariant (name : String) (known : List String)
  | invalidType (found : Unexpected) (wanted : String)
  | invalidValue (found : Unexpected) (wanted : String)
  | invalidLength (length : Nat) (wanted : String)
  deriving DecidableEq

namespace Mismatch

/-- The names to choose from. -/
def choice : List String → String
  | [] => "there are no variants"
  | [a] => "expected `" ++ a ++ "`"
  | [a, b] => "expected `" ++ a ++ "` or `" ++ b ++ "`"
  | names => "expected one of " ++ String.intercalate ", " (names.map fun n => "`" ++ n ++ "`")

def message (layout : DecimalLayout) : Mismatch → String
  | .missingField name => "missing field `" ++ name ++ "`"
  | .duplicateField name => "duplicate field `" ++ name ++ "`"
  | .unknownVariant name known => "unknown variant `" ++ name ++ "`, " ++ choice known
  | .invalidType found wanted =>
    "invalid type: " ++ found.describe layout ++ ", expected " ++ wanted
  | .invalidValue found wanted =>
    "invalid value: " ++ found.describe layout ++ ", expected " ++ wanted
  | .invalidLength length wanted =>
    "invalid length " ++ Nat.repr length ++ ", expected " ++ wanted

end Mismatch

/-- A count of elements in words. -/
def elementCount (n : Nat) : String :=
  if n = 1 then "1 element" else Nat.repr n ++ " elements"

/-- A field of a record that is read by `m` into a draft of the record. -/
structure Field (m : Type → Type) (α : Type) where
  name : String
  fill : α → m α
  required : Bool := true

/-- The first required field that has not been seen. -/
def Field.firstMissing {m : Type → Type} {α : Type} (fields : List (Field m α))
    (seen : List String) : Option String :=
  (fields.find? fun f => f.required && !seen.contains f.name).map Field.name

namespace Datum

def unexpected : Datum → Unexpected
  | .null => .null
  | .bool b => .bool b
  | .natural n => .natural n
  | .negative n => .negative n
  | .float x => .float x
  | .text s => .text s
  | .list _ => .list
  | .record _ => .record

/-- Reads a value. -/
abbrev Read (α : Type) := Datum → Except Mismatch α

/-- An integer below a bound. -/
def asBelow (bound : Nat) (wanted : String) : Read Nat
  | .natural n =>
    if n < bound then .ok n else .error (.invalidValue (.natural n) wanted)
  | .negative n =>
    if n = 0 then .ok 0 else .error (.invalidValue (.negative n) wanted)
  | d => .error (.invalidType d.unexpected wanted)

def asUInt32 : Read UInt32 := fun d =>
  (d.asBelow UInt32.size "u32").map Nat.toUInt32

def asUInt64 : Read UInt64 := fun d =>
  (d.asBelow UInt64.size "u64").map Nat.toUInt64

def asText : Read String
  | .text s => .ok s
  | d => .error (.invalidType d.unexpected "a string")

def asOption {α : Type} (read : Read α) : Read (Option α)
  | .null => .ok none
  | d => (read d).map some

def asList {α : Type} (read : Read α) : Read (List α)
  | .list items => items.mapM read
  | d => .error (.invalidType d.unexpected "a sequence")

/-- The field that a key names. A number names a field by its position. -/
def fieldAt {m : Type → Type} {α : Type} (fields : List (Field m α)) :
    Datum → Except Mismatch (Option (Field m α))
  | .text s => .ok (fields.find? fun f => f.name == s)
  | .natural n => .ok fields[n]?
  | d => .error (.invalidType d.unexpected "field identifier")

/-- Fields that are read from a value. -/
abbrev ReadField (α : Type) := Field (ReaderT Datum (Except Mismatch)) α

/-- Fills a draft from entries. Unknown fields are passed over. -/
def fillEntries {α : Type} (fields : List (ReadField α)) :
    List (Datum × Datum) → List String → α → Except Mismatch α
  | [], seen, draft =>
    match Field.firstMissing fields seen with
    | some name => .error (.missingField name)
    | none => .ok draft
  | (key, value) :: rest, seen, draft => do
    match ← fieldAt fields key with
    | none => fillEntries fields rest seen draft
    | some f =>
      if seen.contains f.name then .error (.duplicateField f.name)
      else fillEntries fields rest (f.name :: seen) (← f.fill draft value)

/-- Fills a draft from items in the order of the fields. `position` counts the items taken. -/
def fillItems {α : Type} (wanted : String) (position : Nat) :
    List (ReadField α) → List Datum → α → Except Mismatch α
  | [], [], draft => .ok draft
  | [], extra, _ =>
    .error (.invalidLength (position + extra.length) (elementCount position ++ " in sequence"))
  | f :: fields, [], draft =>
    if f.required then .error (.invalidLength position wanted)
    else fillItems wanted position fields [] draft
  | f :: fields, item :: items, draft => do
    fillItems wanted (position + 1) fields items (← f.fill draft item)

/-- Reads a record with a shape name, from named fields in any order or from a list of its fields in the order
declared. What is neither is not `otherwise`. -/
def asRecord {α : Type} (shape otherwise : String) (fields : List (ReadField α)) (draft : α) : Read α
  | .record entries => fillEntries fields entries [] draft
  | .list items =>
    fillItems (shape ++ " with " ++ elementCount fields.length) 0 fields items draft
  | d => .error (.invalidType d.unexpected otherwise)

/-- Picks a variant by name. -/
def pickVariant (known : List String) (name : String) : Except Mismatch String :=
  if known.contains name then .ok name else .error (.unknownVariant name known)

/-- The variant that a key names. A number names a variant by its position. -/
def variantAt (known : List String) : Datum → Except Mismatch String
  | .text s => pickVariant known s
  | .natural n =>
    match known[n]? with
    | some name => .ok name
    | none =>
      .error (.invalidValue (.natural n)
        ("variant index 0 <= i < " ++ Nat.repr known.length))
  | d => .error (.invalidType d.unexpected "variant identifier")

/-- Reads a variant and its content: a record with the variant's name as its only key. A bare name has
no content. -/
def asVariant (known : List String) : Read (String × Option Datum)
  | .record [(key, content)] => (variantAt known key).map fun name => (name, some content)
  | .record _ => .error (.invalidValue .record "map with a single key")
  | .text s => (pickVariant known s).map fun name => (name, none)
  | d => .error (.invalidType d.unexpected "string or map")

end Datum

end HotFields

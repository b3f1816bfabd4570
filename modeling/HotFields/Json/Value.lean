import HotFields.Json.Text
import HotFields.Json.Number

namespace HotFields.Json.Reader

variable {α : Type}

/-- After a comma there must be another item. -/
def itemAfterComma : Reader Bool := do
  match ← peek with
  | none => truncated
  | some ']' => malformed
  | some _ => pure true

/-- Whether another item follows in a list. The closing bracket is left. -/
def hasItem (first : Bool) : Reader Bool := do
  match ← peek with
  | none => truncated
  | some ']' => pure false
  | some c =>
    if first then pure true
    else if c = ',' then do
      advance
      itemAfterComma
    else malformed

/-- Takes the closing bracket of a list. -/
def endList : Reader Unit := do
  match ← peek with
  | none => truncated
  | some ']' => advance
  | some _ => malformed

/-- Takes items up to the closing bracket, which is left. Every item takes a character at least, so the text
itself bounds their number. -/
def itemsFrom (item : Reader α) : List Char → Bool → Reader (List α)
  | [], _ => truncated
  | _ :: fuel, first => do
    if ← hasItem first then
      let a ← item
      return a :: (← itemsFrom item fuel false)
    else pure []

/-- Takes the items of a list after its opening bracket, or after its first item, and the closing
bracket. -/
def items (first : Bool) (item : Reader α) : Reader (List α) := fun text =>
  (do
    let as ← itemsFrom item text first
    endList
    return as) text

/-- Whether another member follows in an object; its opening quotation mark is taken. The closing brace
is left. -/
def hasMember (first : Bool) : Reader Bool := do
  match ← peek with
  | none => truncated
  | some '}' => pure false
  | some c =>
    if first then if c = '"' then do advance; pure true else malformed
    else if c = ',' then do
      advance
      match ← peek with
      | none => truncated
      | some '"' => advance; pure true
      | some _ => malformed
    else malformed

/-- Takes the colon after a key. -/
def colon : Reader Unit := do
  match ← peek with
  | none => truncated
  | some ':' => advance
  | some _ => malformed

/-- Folds over the members of an object up to the closing brace, which is taken. The text itself bounds
their number. -/
def members (member : String → α → Reader α) : List Char → Bool → α → Reader α
  | [], _, _ => truncated
  | _ :: fuel, first, state => do
    if ← hasMember first then
      let key ← textAfterQuote
      let state ← member key state
      members member fuel false state
    else do
      advance
      return state

/-- Folds over the members of an object after its opening brace. -/
def object (member : String → α → Reader α) (start : α) : Reader α := fun text =>
  members member text true start text

/-- Takes a value that is neither a list nor an object. -/
def scalar : Reader Datum := do
  match ← peek with
  | none => truncated
  | some 'n' => advance; expectRest ['u', 'l', 'l']; pure .null
  | some 't' => advance; expectRest ['r', 'u', 'e']; pure (.bool true)
  | some 'f' => advance; expectRest ['a', 'l', 's', 'e']; pure (.bool false)
  | some '"' => advance; .text <$> textAfterQuote
  | some c => if startsNumber c then number else malformed

/-- Takes a value of any kind. The depth is the number of nested lists and objects allowed. -/
def datum : Nat → Reader Datum
  | 0 => scalar
  | depth + 1 => do
    match ← peek with
    | some '[' => advance; .list <$> items true (datum depth)
    | some '{' => do
      advance
      let entries ← object
        (fun key entries => do
          colon
          return (Datum.text key, ← datum depth) :: entries) []
      return .record entries.reverse
    | _ => scalar

/-- Refuses the value at the front, which is not what was wanted. Of lists and objects only the first
character is looked at. -/
def refuse (wanted : String) : Reader α := do
  match ← peek with
  | some '[' => mismatch (.invalidType .list wanted)
  | some '{' => mismatch (.invalidType .record wanted)
  | _ => do
    let d ← scalar
    mismatch (.invalidType d.unexpected wanted)

/-- Takes a number and reads it; refuses anything else. -/
def numberAs (wanted : String) (read : Datum.Read α) : Reader α := do
  match ← peek with
  | some c => if startsNumber c then do ofMismatch (read (← number)) else refuse wanted
  | none => truncated

def uint32 : Reader UInt32 := numberAs "u32" Datum.asUInt32

def uint64 : Reader UInt64 := numberAs "u64" Datum.asUInt64

/-- Takes a text, or refuses. -/
def textOr (wanted : String) : Reader String := do
  match ← peek with
  | some '"' => advance; textAfterQuote
  | _ => refuse wanted

def text : Reader String := textOr "a string"

/-- Takes `null` or a value. -/
def option (value : Reader α) : Reader (Option α) := do
  match ← peek with
  | some 'n' => advance; expectRest ['u', 'l', 'l']; pure none
  | _ => some <$> value

/-- Takes a list. -/
def list (item : Reader α) : Reader (List α) := do
  match ← peek with
  | some '[' => advance; items true item
  | _ => refuse "a sequence"

/-- Takes the name of a variant. -/
def variantName (known : List String) : Reader String := do
  ofMismatch (Datum.pickVariant known (← textOr "variant identifier"))

end HotFields.Json.Reader

namespace HotFields.Json

/-- The number of nested lists and objects that a text may have. -/
def nestingLimit : Nat := 127

/-- Reads a text of any kind of value. -/
def parse (text : String) : Except Fault Datum :=
  (Reader.datum nestingLimit).run text

end HotFields.Json

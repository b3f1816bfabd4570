import HotFields.Toml.Text
import HotFields.Toml.Scalar

namespace HotFields.Toml

namespace Reader

def isKeyChar (c : Char) : Bool :=
  c.isAlphanum || c = '-' || c = '_'

def simpleKey : Reader String := do
  match ← peek with
  | some '"' => basicText
  | some '\'' => literalText
  | _ => do
    let first ← one isKeyChar
    return String.ofList (first :: (← run isKeyChar))

/-- Nesting of arrays and inline tables, and the parts of a key, stay below this number. -/
def limit : Nat := 80

/-- Takes a key with all its parts: those before the last, and the last. -/
def key : Reader (List String × String) := do
  let part : Reader String := do
    blanks
    let k ← simpleKey
    blanks
    return k
  let first ← part
  let (path, last) ← repeatedly
    (fun (path, last) => do expect ['.']; return (last :: path, ← part)) ([], first)
  if path.length + 1 < limit then return (path.reverse, last) else failure

/-- Takes a key, the equals sign and a value. -/
def entry (value : Reader Value) : Reader ((List String × String) × Value) := do
  let k ← key
  expect ['=']
  blanks
  return (k, ← value)

/-- Takes the items of an array up to its closing bracket, which is left. -/
def arrayItems (value : Reader Value) (done : List Value × Bool) : Reader (List Value × Bool) := do
  if !done.2 then failure
  gap
  if (← peek) = some ']' then failure
  let v ← value
  gap
  let more ← optional (expect [','])
  return (v :: done.1, more.isSome)

/-- Takes the entries of an inline table after the first one. -/
def inlineEntries (value : Reader Value) (entries : Entries) : Reader Entries := do
  let ((path, last), v) ← entry value
  blanks
  (entries.insert .inline path last v : Option Entries)

/-- Takes a value. The depth is the number of nested arrays and inline tables allowed. -/
def value : Nat → Reader Value
  | 0 => failure
  | depth + 1 => do
    match ← peek with
    | some '"' | some '\'' => .text <$> text
    | some '[' => do
      let _ ← next
      guard (depth ≠ 0)
      let (items, _) ← repeatedly (arrayItems (value depth)) ([], true)
      gap
      expect [']']
      return .array items.reverse
    | some '{' => do
      let _ ← next
      guard (depth ≠ 0)
      blanks
      if (← peek) = some '}' then
        let _ ← next
        return .table .inline []
      else
        let first ← inlineEntries (value depth) []
        let entries ← repeatedly
          (fun entries => do expect [',']; inlineEntries (value depth) entries) first
        expect ['}']
        return .table .inline entries
    | some 't' => do expect ['t', 'r', 'u', 'e']; return .bool true
    | some 'f' => do expect ['f', 'a', 'l', 's', 'e']; return .bool false
    | some _ => moment <|> decimalFloat <|> specialFloat <|> integer
    | none => failure

/-- Takes a header and starts its table. -/
def header (d : Draft) : Reader Draft := do
  expect ['[']
  if (← peek) = some '[' then
    let _ ← next
    let (path, last) ← key
    expect [']', ']']
    lineRest
    (d.openElement (path ++ [last]) : Option Draft)
  else
    let (path, last) ← key
    expect [']']
    lineRest
    (d.openTable (path ++ [last]) : Option Draft)

/-- Takes one line. -/
def line (d : Draft) : Reader Draft := do
  match ← peek with
  | none => failure
  | some '#' => do
    comment
    lineEnd
    return d
  | some '[' => header d
  | some '\n' | some '\r' => do
    newline
    return d
  | some _ => do
    let ((path, last), v) ← entry (value limit)
    lineRest
    (d.insert path last v : Option Draft)

end Reader

/-- Reads a document line by line into a draft of its tables. A byte order mark at its start is dropped. -/
def parse (text : String) : Option Entries := do
  let chars := text.toList
  let chars := if chars.head? = some '\ufeff' then chars.tail else chars
  let lines : Reader Draft := do
    Reader.blanks
    Reader.repeatedly (fun d => do let d ← Reader.line d; Reader.blanks; return d) {}
  let (d, rest) ← lines chars
  if rest.isEmpty then d.close else none

end HotFields.Toml

import HotFields.Datum
import HotFields.Files
import HotFields.Options.Basic
import HotFields.Toml.Document

namespace HotFields

namespace Toml

/-- Why a value is not what was wanted. -/
inductive Misfit where
  | mismatch (m : Mismatch)
  | notTextOrTable
  | noElement
  | severalElements
  | arrayNotEmpty
  | tableNotEmpty
  | notTable (found : String)
  deriving DecidableEq

/-- Floating point numbers in messages are always written out. -/
def floatLayout : DecimalLayout where
  positional _ := true

def Misfit.message : Misfit → String
  | .mismatch m => m.message floatLayout
  | .notTextOrTable => "wanted string or table"
  | .noElement => "wanted exactly 1 element, found 0 elements"
  | .severalElements => "wanted exactly 1 element, more than 1 element"
  | .arrayNotEmpty => "expected empty array"
  | .tableNotEmpty => "expected empty table"
  | .notTable found => "expected table, found " ++ found

namespace Value

/-- How a value is called where another was wanted. Dates and times count as records. -/
def unexpected : Value → Unexpected
  | .text s => .text s
  | .integer n => if 0 ≤ n then .natural n.toNat else .negative n.natAbs
  | .float x => .float x
  | .bool b => .bool b
  | .moment => .record
  | .array _ => .list
  | .table .. => .record
  | .tables _ => .list

def asText : Value → Except Misfit String
  | .text s => .ok s
  | v => .error (.mismatch (.invalidType v.unexpected "a string"))

def asBool : Value → Except Misfit Bool
  | .bool b => .ok b
  | v => .error (.mismatch (.invalidType v.unexpected "a boolean"))

/-- The content of a variant without fields: an empty array or table. -/
def asNothing : Value → Except Misfit Unit
  | .array items => if items.isEmpty then .ok () else .error .arrayNotEmpty
  | .tables elements => if elements.isEmpty then .ok () else .error .arrayNotEmpty
  | .table _ entries => if entries.isEmpty then .ok () else .error .tableNotEmpty
  | .text _ => .error (.notTable "string")
  | .integer _ => .error (.notTable "integer")
  | .float _ => .error (.notTable "float")
  | .bool _ => .error (.notTable "boolean")
  | .moment => .error (.notTable "datetime")

/-- A variant without fields: its name, or a table with the name as its only key. -/
def asVariant (known : List String) : Value → Except Misfit String
  | .text name => pick name
  | .table _ entries =>
    match entries with
    | [] => .error .noElement
    | [(name, content)] => do
      let name ← pick name
      content.asNothing
      return name
    | _ => .error .severalElements
  | _ => .error .notTextOrTable
where
  pick (name : String) : Except Misfit String :=
    (Datum.pickVariant known name).mapError Misfit.mismatch

end Value

end Toml

/-- Why a text holds no options. -/
inductive OptionsTextFault where
  | syntaxFault
  | misfit (m : Toml.Misfit)
  deriving DecidableEq

def OptionsTextFault.message : OptionsTextFault → String
  | .syntaxFault => "invalid TOML"
  | .misfit m => m.message

namespace Options

/-- Takes one entry. -/
def setEntry (o : Options) (key : String) (v : Toml.Value) : Except Toml.Misfit Options :=
  if key = "entry_symbol" then do return { o with entrySymbol := ← v.asText }
  else if key = "scope" then do
    let name ← v.asVariant [Scope.entry.name, Scope.allFunctions.name]
    return { o with scope := if name = Scope.entry.name then .entry else .allFunctions }
  else if key = "traverse_argument_uses" then do
    return { o with traverseArgumentUses := ← v.asBool }
  else if key = "attribute_global_operands" then do
    return { o with attributeGlobalOperands := ← v.asBool }
  else if key = "deduplicate" then do return { o with deduplicate := ← v.asBool }
  else .ok o

/-- Reads options from TOML text. The entries are taken in the order written, so the first bad one is reported;
entries with other names are passed over, and options without an entry keep their defaults. -/
def ofToml (text : String) : Except OptionsTextFault Options :=
  match Toml.parse text with
  | none => .error .syntaxFault
  | some entries =>
    (entries.foldlM (fun o (key, v) => setEntry o key v) {}).mapError OptionsTextFault.misfit

end Options

/-- Why a file holds no options. -/
inductive ConfigFault where
  | file (path : String) (fault : FileFault)
  | text (path : String) (fault : OptionsTextFault)
  | choice (fault : OptionsFault)
  deriving DecidableEq

def ConfigFault.message : ConfigFault → String
  | .file path fault => "failed to read config " ++ path ++ ": " ++ fault.message
  | .text path fault => "invalid config " ++ path ++ ": " ++ fault.message
  | .choice fault => fault.message

/-- Loads the options in a file. Its name does not matter. -/
def Options.load (read : FileReader) (path : String) : Except ConfigFault Options :=
  match read path with
  | .error fault => .error (.file path fault)
  | .ok text => (Options.ofToml text).mapError (ConfigFault.text path)

end HotFields

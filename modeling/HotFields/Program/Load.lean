import HotFields.Files
import HotFields.Program.Json
import HotFields.Program.Yaml

namespace HotFields

/-- The text formats of programs. -/
inductive ProgramFormat where
  | json
  | yaml
  deriving DecidableEq

/-- The format that a file extension stands for. Case matters. -/
def ProgramFormat.ofExtension? (extension : String) : Option ProgramFormat :=
  if extension = "json" then some .json
  else if extension = "yaml" || extension = "yml" then some .yaml
  else none

/-- Why a program cannot be loaded. Where and how a YAML text goes wrong is not kept: its fault carries no words of the
reader, and its message ends where they would follow. -/
inductive LoadFault where
  | file (path : String) (fault : FileFault)
  | json (fault : Json.Fault)
  | yaml
  | unsupported (extension : String)
  | dangling (reference : Dangling)
  deriving DecidableEq

def LoadFault.message : LoadFault → String
  | .file path fault => "failed to read " ++ path ++ ": " ++ fault.message
  | .json fault => "invalid JSON module: " ++ fault.message
  | .yaml => "invalid YAML module"
  | .unsupported extension =>
    "unsupported module format `" ++ extension ++ "` (expected .json, .yaml or .yml)"
  | .dangling reference => reference.message

namespace Program

/-- A program whose references all resolve, with its use lists. -/
def checked (p : Program) : Except LoadFault IndexedProgram :=
  match p.validate with
  | .ok _ => .ok p.index
  | .error reference => .error (.dangling reference)

/-- Reads a program from JSON text. -/
def ofJson (text : String) : Except LoadFault IndexedProgram :=
  match readJson text with
  | .ok p => p.checked
  | .error fault => .error (.json fault)

/-- Reads a program from YAML text. -/
def ofYaml (text : String) : Except LoadFault IndexedProgram :=
  match readYaml text with
  | some p => p.checked
  | none => .error .yaml

/-- Reads a program from text of a format. -/
def ofText : ProgramFormat → String → Except LoadFault IndexedProgram
  | .json, text => ofJson text
  | .yaml, text => ofYaml text

/-- Loads the program in a file. The file is read before its extension is looked at. -/
def load (read : FileReader) (path : String) : Except LoadFault IndexedProgram :=
  match read path with
  | .error fault => .error (.file path fault)
  | .ok text =>
    match (Path.extension? path).bind ProgramFormat.ofExtension? with
    | some format => ofText format text
    | none => .error (.unsupported (Path.extension path))

end Program

end HotFields

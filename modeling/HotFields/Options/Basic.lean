namespace HotFields

/-- Which functions an analysis starts from. -/
inductive Scope where
  /-- Only functions with the entry symbol as their name. -/
  | entry
  /-- Every function with a body. -/
  | allFunctions
  deriving DecidableEq

def Scope.name : Scope → String
  | .entry => "entry"
  | .allFunctions => "all_functions"

/-- A named preset. -/
inductive Profile where
  /-- Callee bodies only. -/
  | baseline
  /-- Adds argument uses and global operands. -/
  | heatmap
  deriving DecidableEq

def Profile.name : Profile → String
  | .baseline => "baseline"
  | .heatmap => "heatmap"

/-- A switch of the analysis. -/
inductive Feature where
  | argumentUses
  | globalOperands
  | deduplicate
  deriving DecidableEq

def Feature.name : Feature → String
  | .argumentUses => "argument_uses"
  | .globalOperands => "global_operands"
  | .deduplicate => "deduplicate"

/-- The feature with a name. -/
def Feature.ofName? (name : String) : Option Feature :=
  [Feature.argumentUses, .globalOperands, .deduplicate].find? fun f => f.name == name

/-- Why a choice of options is refused. -/
inductive OptionsFault where
  | unknownProfile (name : String)
  | unknownFeature (name : String)
  deriving DecidableEq

def OptionsFault.message : OptionsFault → String
  | .unknownProfile name =>
    "unknown profile `" ++ name ++ "` (expected `baseline` or `heatmap`)"
  | .unknownFeature name => "unknown analysis feature `" ++ name ++ "`"

/-- Reads a profile name. Case is ignored for the letters a to z; `skeleton` is another name of the
baseline. -/
def Profile.ofName (name : String) : Except OptionsFault Profile :=
  match name.map Char.toLower with
  | "baseline" | "skeleton" => .ok .baseline
  | "heatmap" => .ok .heatmap
  | _ => .error (.unknownProfile name)

/-- The options of an analysis. -/
structure Options where
  /-- The name of the functions to start from in entry scope. -/
  entrySymbol : String := "main"
  scope : Scope := .entry
  /-- Visit the users of every argument at a call. -/
  traverseArgumentUses : Bool := true
  /-- Attribute an index operand that names a global to the global's declared structure. -/
  attributeGlobalOperands : Bool := true
  /-- Classify an instruction at most once in a walk. -/
  deduplicate : Bool := true
  deriving DecidableEq

namespace Options

def heatmap : Options := {}

def baseline : Options :=
  { traverseArgumentUses := false, attributeGlobalOperands := false }

def forProfile : Profile → Options
  | .baseline => baseline
  | .heatmap => heatmap

/-- Sets the two precision switches as the preset does and keeps the rest. -/
def applyProfile (o : Options) (profile : Profile) : Options :=
  { o with
    traverseArgumentUses := (forProfile profile).traverseArgumentUses
    attributeGlobalOperands := (forProfile profile).attributeGlobalOperands }

def set (o : Options) (feature : Feature) (enabled : Bool) : Options :=
  match feature with
  | .argumentUses => { o with traverseArgumentUses := enabled }
  | .globalOperands => { o with attributeGlobalOperands := enabled }
  | .deduplicate => { o with deduplicate := enabled }

/-- Switches the feature with a name. -/
def setNamed (o : Options) (name : String) (enabled : Bool) : Except OptionsFault Options :=
  match Feature.ofName? name with
  | some feature => .ok (o.set feature enabled)
  | none => .error (.unknownFeature name)

def walksAllFunctions (o : Options) : Bool :=
  o.scope = .allFunctions

end Options

end HotFields

import HotFields.Options.Toml

namespace HotFields

namespace Command

/-- Parameters with a value. -/
inductive Parameter where
  | input
  | config
  | profile
  | entry
  | enable
  | disable
  deriving DecidableEq

/-- How messages call a parameter. -/
def Parameter.usage : Parameter → String
  | .input => "<INPUT>"
  | .config => "--config <CONFIG>"
  | .profile => "--profile <PROFILE>"
  | .entry => "--entry <ENTRY>"
  | .enable => "--enable <FEATURE>"
  | .disable => "--disable <FEATURE>"

/-- The option with a long name. -/
def Parameter.ofOption? (name : String) : Option Parameter :=
  if name = "config" then some .config
  else if name = "profile" then some .profile
  else if name = "entry" then some .entry
  else if name = "enable" then some .enable
  else if name = "disable" then some .disable
  else none

/-- Options without a value. -/
inductive Switch where
  | allFunctions
  | noDedup
  | parallel
  | timings
  | help
  | version
  deriving DecidableEq

def Switch.usage : Switch → String
  | .allFunctions => "--all-functions"
  | .noDedup => "--no-dedup"
  | .parallel => "--parallel"
  | .timings => "--timings"
  | .help => "--help"
  | .version => "--version"

/-- The switch with a long name. -/
def Switch.ofOption? (name : String) : Option Switch :=
  [Switch.allFunctions, .noDedup, .parallel, .timings, .help, .version].find? fun s =>
    s.usage == "--" ++ name

/-- The switch with a one letter name. -/
def Switch.ofLetter? (letter : Char) : Option Switch :=
  if letter = 'h' then some .help else if letter = 'V' then some .version else none

/-- Why a command line is not carried out. -/
inductive UsageFault where
  | help
  | version
  | unknownArgument (argument : String)
  | missingValue (parameter : Parameter)
  | invalidProfile (value : String) (fault : OptionsFault)
  | repeatedParameter (parameter : Parameter)
  | repeatedSwitch (switch : Switch)
  | unneededValue (value : String) (switch : Switch)
  | missingInput
  deriving DecidableEq

/-- The first line of the message. -/
def UsageFault.message : UsageFault → String
  | .help => "help requested"
  | .version => "version requested"
  | .unknownArgument argument => "unexpected argument '" ++ argument ++ "' found"
  | .missingValue parameter =>
    "a value is required for '" ++ parameter.usage ++ "' but none was supplied"
  | .invalidProfile value fault =>
    "invalid value '" ++ value ++ "' for '" ++ Parameter.profile.usage ++ "': " ++ fault.message
  | .repeatedParameter parameter =>
    "the argument '" ++ parameter.usage ++ "' cannot be used multiple times"
  | .repeatedSwitch switch =>
    "the argument '" ++ switch.usage ++ "' cannot be used multiple times"
  | .unneededValue value switch =>
    "unexpected value '" ++ value ++ "' for '" ++ switch.usage ++ "' found; no more were expected"
  | .missingInput => "the following required arguments were not provided:"

/-- What the options on a command line say. -/
structure Choices where
  config : Option String := none
  profile : Option Profile := none
  entry : Option String := none
  allFunctions : Bool := false
  enable : List String := []
  disable : List String := []
  noDedup : Bool := false
  parallel : Bool := false
  timings : Bool := false
  deriving DecidableEq

/-- A complete command line. -/
structure Arguments extends Choices where
  input : String
  deriving DecidableEq

/-- A command line under examination. A value that is the next argument is kept until another argument of a known
kind comes, and is looked at only then. So a fault of that value gives way to an unknown argument, to a second input
and to a value written to a switch. -/
structure Scan where
  choices : Choices := {}
  input : Option String := none
  /-- A parameter whose value has not been looked at; without one if it has yet to come. -/
  pending : Option (Parameter × Option String) := none
  /-- An input has been found, looked at or not. -/
  hasInput : Bool := false
  /-- Nothing but inputs can follow. -/
  onlyInputs : Bool := false

namespace Scan

/-- Takes the value of a path, which is not empty. -/
def takePath (parameter : Parameter) (value : String) : Except UsageFault String :=
  if value.isEmpty then .error (.missingValue parameter) else .ok value

/-- Takes the value of a parameter that may be given only once. -/
def once {α : Type} (parameter : Parameter) (old : Option α) (new : Except UsageFault α) :
    Except UsageFault (Option α) :=
  if old.isSome then .error (.repeatedParameter parameter) else new.map some

/-- Takes the value of a parameter. -/
def accept (s : Scan) (parameter : Parameter) (value : String) : Except UsageFault Scan :=
  match parameter with
  | .input => do return { s with input := ← once .input s.input (takePath .input value) }
  | .config => do
    return { s with
      choices.config := ← once .config s.choices.config (takePath .config value) }
  | .profile => do
    return { s with
      choices.profile := ← once .profile s.choices.profile
        ((Profile.ofName value).mapError (UsageFault.invalidProfile value)) }
  | .entry => do return { s with choices.entry := ← once .entry s.choices.entry (.ok value) }
  | .enable => .ok { s with choices.enable := s.choices.enable ++ [value] }
  | .disable => .ok { s with choices.disable := s.choices.disable ++ [value] }

/-- Looks at the pending value. -/
def settle (s : Scan) : Except UsageFault Scan :=
  match s.pending with
  | none => .ok s
  | some (parameter, none) => .error (.missingValue parameter)
  | some (parameter, some value) => accept { s with pending := none } parameter value

/-- Turns a switch on that may be given only once. -/
def turnOn (switch : Switch) (old : Bool) : Except UsageFault Bool :=
  if old then .error (.repeatedSwitch switch) else .ok true

/-- Takes a switch. -/
def flip (s : Scan) (switch : Switch) : Except UsageFault Scan := do
  let s ← s.settle
  match switch with
  | .allFunctions =>
    return { s with choices.allFunctions := ← turnOn .allFunctions s.choices.allFunctions }
  | .noDedup => return { s with choices.noDedup := ← turnOn .noDedup s.choices.noDedup }
  | .parallel => return { s with choices.parallel := ← turnOn .parallel s.choices.parallel }
  | .timings => return { s with choices.timings := ← turnOn .timings s.choices.timings }
  | .help => throw .help
  | .version => throw .version

/-- Takes a long option: its name and what follows the equals sign, if there is one. -/
def long (s : Scan) (name : String) (value : Option String) : Except UsageFault Scan :=
  match Parameter.ofOption? name, value with
  | some parameter, some value => do (← s.settle).accept parameter value
  | some parameter, none => do return { (← s.settle) with pending := some (parameter, none) }
  | none, value =>
    match Switch.ofOption? name, value with
    | some switch, none => s.flip switch
    | some switch, some value => .error (.unneededValue value switch)
    | none, _ => .error (.unknownArgument ("--" ++ name))

/-- Takes one letter options. -/
def letters (s : Scan) : List Char → Except UsageFault Scan
  | [] => .ok s
  | c :: rest =>
    match Switch.ofLetter? c with
    | some switch => do (← s.flip switch).letters rest
    | none => .error (.unknownArgument (String.ofList ['-', c]))

/-- Takes an argument that is no option: the value that is waited for, or the input. -/
def plain (s : Scan) (argument : String) : Except UsageFault Scan :=
  match s.pending, s.onlyInputs with
  | some (parameter, none), false => .ok { s with pending := some (parameter, some argument) }
  | _, _ =>
    if s.hasInput then .error (.unknownArgument argument)
    else do
      return { (← s.settle) with pending := some (.input, some argument), hasInput := true }

/-- Takes one argument. -/
def step (s : Scan) (argument : String) : Except UsageFault Scan :=
  match argument.toList, s.onlyInputs with
  | ['-', '-'], false => .ok { s with onlyInputs := true }
  | '-' :: '-' :: rest, false =>
    let name := rest.takeWhile (· ≠ '=')
    let value := if '=' ∈ rest then some (String.ofList (rest.drop (name.length + 1))) else none
    s.long (String.ofList name) value
  | '-' :: c :: rest, false => s.letters (c :: rest)
  | _, _ => s.plain argument

/-- Ends the command line. -/
def finish (s : Scan) : Except UsageFault Arguments := do
  let s ← s.settle
  match s.input with
  | none => throw .missingInput
  | some input => return { s.choices with input }

end Scan

/-- Reads a command line. -/
def Arguments.parse (arguments : List String) : Except UsageFault Arguments := do
  (← arguments.foldlM Scan.step {}).finish

/-- The options that a command line asks for: the file's, then the profile, the entry, the scope, the
features switched on, those switched off, and last the switch against de-duplication. -/
def Choices.options (c : Choices) (read : FileReader) : Except ConfigFault Options := do
  let o ← match c.config with
    | some path => Options.load read path
    | none => .ok {}
  let o := match c.profile with
    | some profile => o.applyProfile profile
    | none => o
  let o := match c.entry with
    | some entry => { o with entrySymbol := entry }
    | none => o
  let o := if c.allFunctions then { o with scope := .allFunctions } else o
  let o ← c.enable.foldlM (fun o name => (Options.setNamed o name true).mapError .choice) o
  let o ← c.disable.foldlM (fun o name => (Options.setNamed o name false).mapError .choice) o
  return if c.noDedup then { o with deduplicate := false } else o

end Command

end HotFields

import HotFields.Analysis.Parallel
import HotFields.Command.Arguments
import HotFields.Command.Filter
import HotFields.Program.Load
import HotFields.Text.Quoted
import HotFields.Timing

namespace HotFields.Command

/-- Why a run fails. -/
inductive RunFault where
  | config (fault : ConfigFault)
  | needsFeature (input : String)
  | unsupported (extension : String)
  | load (input : String) (fault : LoadFault)
  deriving DecidableEq

/-- The causes behind the message of a configuration fault. -/
def configCauses : ConfigFault → List String
  | .file _ fault => [fault.message]
  | .text _ fault => [fault.message]
  | .choice _ => []

/-- The causes behind the message of a loading fault. -/
def loadCauses : LoadFault → List String
  | .file _ fault => [fault.message]
  | .json fault => [fault.message]
  | _ => []

/-- The message of a fault, followed by its causes. -/
def RunFault.chain : RunFault → List String
  | .config fault => fault.message :: configCauses fault
  | .needsFeature input =>
    [input ++ " is LLVM IR; rebuild with `--features llvm` to analyze it"]
  | .unsupported extension => ["unsupported input format `" ++ extension ++ "`"]
  | .load input fault =>
    ("failed to load " ++ input) :: fault.message :: loadCauses fault

/-- A run: the entries made before the report, the report or the fault in its place, and the entries
made after it. -/
structure Run where
  before : Log
  report : Except RunFault String
  after : Log

/-- The name of a scope in log entries. -/
def scopeName : Scope → String
  | .entry => "Entry"
  | .allFunctions => "AllFunctions"

def boolName (b : Bool) : String := if b then "true" else "false"

/-- The text of all options in log entries. -/
def optionsText (o : Options) : String :=
  "AnalysisOptions \x7b entry_symbol: " ++ Text.quoted o.entrySymbol ++
  ", scope: " ++ scopeName o.scope ++
  ", traverse_argument_uses: " ++ boolName o.traverseArgumentUses ++
  ", attribute_global_operands: " ++ boolName o.attributeGlobalOperands ++
  ", deduplicate: " ++ boolName o.deduplicate ++ " \x7d"

def optionsEntry (o : Options) : Log.Entry where
  level := .debug
  source := .command
  message := "resolved analysis options"
  fields := [("options", optionsText o)]

namespace Arguments

/-- Accepts an input by its extension. -/
def checkInput (a : Arguments) : Except RunFault Unit :=
  let extension := Path.extension a.input
  if extension ∈ ["json", "yaml", "yml"] then .ok ()
  else if extension ∈ ["ll", "bc"] then .error (.needsFeature a.input)
  else .error (.unsupported extension)

/-- Analyses a program with or without workers. -/
def analyze (a : Arguments) (p : IndexedProgram) (o : Options) : Analysis :=
  if a.parallel then
    let plan := Plan.perRoot (rootsOf p.toProgram o)
    let analysis := analyzeBy plan p o
    { analysis with log := analysis.log ++ plan.workerLog p o }
  else HotFields.analyze p o

/-- Carries out a command line: options, input format, loading, analysis and report, in this order. The first stage
that fails ends the run, and nothing of a report is written then. -/
def run {m : Type → Type} [Monad m] (clock : Clock m) (read : FileReader) (a : Arguments) :
    m Run := do
  match a.options read with
  | .error fault => return ⟨[], .error (.config fault), []⟩
  | .ok o =>
    match a.checkInput with
    | .error fault => return ⟨[optionsEntry o], .error fault, []⟩
    | .ok _ =>
      let (loaded, phases) ←
        Phases.record clock [] "load" fun _ => Program.load read a.input
      match loaded with
      | .error fault => return ⟨[optionsEntry o], .error (.load a.input fault), []⟩
      | .ok p =>
        let (analysis, phases) ← phases.record clock "analyze" fun _ => a.analyze p o
        let (report, phases) ← phases.record clock "report" fun _ =>
          Report.render analysis.table
        let wall : Log.Entry :=
          { level := .info, source := .command, message := "wall clock",
            fields := [Phases.elapsedField (← clock.sinceStart)] }
        return ⟨optionsEntry o :: analysis.log, .ok report,
          if a.timings then phases.summary ++ [wall] else []⟩

end Arguments

/-- The lines of a cause. Where there are several causes, each has a number. -/
def causeLines (number : Option Nat) (cause : String) : List String :=
  let (first, next) : String × String := match number with
    | some n => ("    " ++ Nat.repr n ++ ": ", "       ")
    | none => ("    ", "    ")
  match cause.splitOn "\n" with
  | [] => [first]
  | line :: rest => (first ++ line) :: rest.map fun line => next ++ line

/-- The lines that show a message and its causes. -/
def faultLines : List String → List String
  | [] => []
  | [message] => ["Error: " ++ message]
  | [message, cause] => ["Error: " ++ message, "", "Caused by:"] ++ causeLines none cause
  | message :: causes =>
    ["Error: " ++ message, "", "Caused by:"] ++
      (causes.zipIdx.flatMap fun (cause, n) => causeLines (some n) cause)

def textOfLines (lines : List String) : String :=
  String.join (lines.map fun line => line ++ "\n")

/-- The lines of the entries that a filter shows. -/
def logText (filter : Log.Filter) (log : Log) : String :=
  textOfLines ((log.filter filter.shows).map Log.Entry.line)

/-- What a process leaves behind. -/
structure Outcome where
  exitCode : Nat
  stdout : String
  stderr : String

/-- The report or the error goes to the error stream, among the log entries. -/
def Run.outcome (filter : Log.Filter) (r : Run) : Outcome :=
  match r.report with
  | .ok report =>
    { exitCode := 0
      stdout := ""
      stderr := logText filter r.before ++ report ++ logText filter r.after }
  | .error fault =>
    { exitCode := 1
      stdout := ""
      stderr := logText filter r.before ++ textOfLines (faultLines fault.chain) }

def versionText : String := "heatmap 0.1.0\n"

def helpText : String := textOfLines
  ["Counts struct member accesses reachable from the program entry",
   "",
   "Usage: heatmap [OPTIONS] <INPUT>",
   "",
   "Arguments:",
   "  <INPUT>  Module to analyze: .json/.yaml/.yml, or .ll/.bc with the `llvm` feature",
   "",
   "Options:",
   "      --config <CONFIG>    TOML file with analysis options",
   "      --profile <PROFILE>  Option preset: `baseline` or `heatmap`",
   "      --entry <ENTRY>      Entry function symbol",
   "      --all-functions      Walk every defined function instead of only the entry",
   "      --enable <FEATURE>   Enable an analysis feature (argument_uses, global_operands, deduplicate)",
   "      --disable <FEATURE>  Disable an analysis feature",
   "      --no-dedup           Count an instruction every time it is reached",
   "      --parallel           Walk root functions on a thread pool",
   "      --timings            Log per-phase timings",
   "  -h, --help               Print help",
   "  -V, --version            Print version"]

/-- Help and version are printed; every other fault is explained on the error stream. -/
def UsageFault.outcome : UsageFault → Outcome
  | .help => { exitCode := 0, stdout := helpText, stderr := "" }
  | .version => { exitCode := 0, stdout := versionText, stderr := "" }
  | fault =>
    { exitCode := 2
      stdout := ""
      stderr := textOfLines
        (["error: " ++ fault.message] ++
          (if fault = .missingInput then ["  " ++ Parameter.input.usage] else []) ++
          ["", "For more information, try '--help'."]) }

/-- Carries out the command line of a process. -/
def execute {m : Type → Type} [Monad m] (clock : Clock m) (read : FileReader)
    (filter : Log.Filter) (arguments : List String) : m Outcome := do
  match Arguments.parse arguments with
  | .error fault => return fault.outcome
  | .ok a => return (← a.run clock read).outcome filter

end HotFields.Command

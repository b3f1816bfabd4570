import HotFields.Command.Run

namespace HotFields.Process

/-- The number of an operating system error. An error on opening a file has it negated. -/
def errorNumber (code : UInt32) : Nat :=
  if code < 0x80000000 then code.toNat else (0 - code).toNat

/-- The fault behind an error, unless the operating system did not raise it. -/
def fileFault? : IO.Error → Option FileFault
  | .alreadyExists _ code words | .otherError code words | .resourceBusy code words | .resourceVanished code words
  | .unsupportedOperation code words | .hardwareFault code words | .unsatisfiedConstraints code words
  | .illegalOperation code words | .protocolError code words | .timeExpired code words | .interrupted _ code words
  | .noFileOrDirectory _ code words | .invalidArgument _ code words | .permissionDenied _ code words
  | .resourceExhausted _ code words | .inappropriateType _ code words | .noSuchThing _ code words =>
    some (.ofNumber (errorNumber code) words)
  | .unexpectedEof | .userError _ => none

/-- What a path names. -/
def readEntry (path : String) : IO (Except FileFault FileEntry) := do
  try
    return .ok (.bytes (← IO.FS.readBinFile path))
  catch error =>
    match fileFault? error with
    | some fault => return .error fault
    | none => throw error

/-- The files that a command line names. They are read before anything else is decided. -/
def namedFiles (arguments : List String) : List String :=
  match Command.Arguments.parse arguments with
  | .ok a => a.config.toList ++ [a.input]
  | .error _ => []

/-- Reads from files fetched before. -/
def fetched (files : List (String × Except FileFault FileEntry)) : FileReader := fun path => do
  match files.lookup path with
  | none => throw .missing
  | some entry => (← entry).read

/-- The clock of the process. -/
def clock (start : Nat) : Clock IO where
  measure f := do
    let before ← IO.monoNanosNow
    let a ← IO.lazyPure f
    let after ← IO.monoNanosNow
    return (a, after - before)
  sinceStart := do return (← IO.monoNanosNow) - start

end HotFields.Process

open HotFields Process in
def main (arguments : List String) : IO UInt32 := do
  let start ← IO.monoNanosNow
  let files ← (namedFiles arguments).mapM fun path => do return (path, ← readEntry path)
  let filter := Log.Filter.ofText (← IO.getEnv "RUST_LOG")
  let outcome ← Command.execute (clock start) (fetched files) filter arguments
  (← IO.getStdout).putStr outcome.stdout
  (← IO.getStderr).putStr outcome.stderr
  return outcome.exitCode.toUInt32

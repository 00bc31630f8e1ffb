import GoTrivia.CommandLine.Run

/-!
# The program

Reads the files the arguments name, runs the command on what it read, and writes
what the outcome says.
-/

set_option autoImplicit false

namespace GoTrivia.CommandLine

/-- The system's number of an error that comes with a code, which may be the number
negated. -/
def errorNumber (code : UInt32) : UInt32 := min code (0 - code)

/-- Reads one file as text. -/
def readPath (path : String) : IO (Except ReadFailure String) := do
  try
    let bytes ← IO.FS.readBinFile path
    match String.fromUTF8? bytes with
    | some text => return .ok text
    | none => return .error .notText
  catch
    | .noFileOrDirectory .. => return .error .missing
    | .inappropriateType _ code _ =>
      return .error (if errorNumber code = 20 then .notDirectory else .directory)
    | error@(.invalidArgument _ code _) =>
      return .error (if errorNumber code = 36 then .nameTooLong else .other (toString error))
    | error => return .error (.other (toString error))

/-- Reads the files of a command, each once. -/
def readPaths (paths : List String) : IO (List (String × Except ReadFailure String)) :=
  paths.eraseDups.mapM fun path => do return (path, ← readPath path)

/-- Looks paths up among those that were read. -/
def readerOf (contents : List (String × Except ReadFailure String)) : Reader := fun path =>
  (contents.lookup path).getD (.error .missing)

/-- Runs the program and gives its exit code. -/
def exec (args : List String) : IO UInt32 := do
  match Options.ofArgs? args with
  | none =>
    IO.eprintln usage
    return 2
  | some options =>
    let outcome := options.run (readerOf (← readPaths options.command.paths))
    IO.print outcome.output
    for (path, text) in outcome.written do
      IO.FS.writeFile path text
    for diagnostic in outcome.diagnostics do
      IO.eprintln diagnostic
    if let some failure := outcome.failure then
      IO.eprint failure.report
    return outcome.code.toUInt32

end GoTrivia.CommandLine

/-- Runs the command line. -/
def main (args : List String) : IO UInt32 := GoTrivia.CommandLine.exec args

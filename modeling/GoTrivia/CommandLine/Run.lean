import GoTrivia.CommandLine.Directory
import GoTrivia.CommandLine.LogFilter
import GoTrivia.CommandLine.Options
import GoTrivia.Diagnostic.Snippet
import GoTrivia.RoundTrip

/-!
# Runs

A run is a function of what the arguments ask for and of what reading each path gives;
what it writes is part of its outcome.
-/

set_option autoImplicit false

namespace GoTrivia

namespace CommandLine

/-! ## Failures -/

/-- Why a run failed. -/
inductive Failure
  | badFilter (filter : String) (fault : LogFilter.Fault)
  | unreadable (path : String) (cause : ReadFailure)
  | malformed (path : String) (count : Nat)
  | undecorated (path : String) (cause : TreeError)
  | unprinted (cause : TreeError)
  | changed (count total : Nat)
deriving DecidableEq, Repr

/-- What failed. -/
def Failure.message : Failure → String
  | badFilter filter _ => s!"invalid log filter `{filter}`"
  | unreadable path _ => s!"failed to read `{path}`"
  | malformed path count => s!"`{path}` has {count} syntax errors"
  | undecorated path _ => s!"failed to decorate `{path}`"
  | unprinted cause => cause.message
  | changed count total => s!"{count} of {total} files changed"

/-- Why it failed, from the nearest cause on. -/
def Failure.causes : Failure → List String
  | badFilter _ fault => fault.causes
  | unreadable _ cause => [cause.message]
  | undecorated _ cause => [cause.message]
  | _ => []

/-- Numbers causes from a given number on. -/
def numbered (n : Nat) : List String → List String
  | [] => []
  | cause :: causes => s!"    {n}: {cause}\n" :: numbered (n + 1) causes

/-- The report of a failure: what failed, then why.  Several causes are numbered. -/
def Failure.report (failure : Failure) : String :=
  let heading := s!"Error: {failure.message}\n"
  match failure.causes with
  | [] => heading
  | [cause] => heading ++ s!"\nCaused by:\n    {cause}\n"
  | causes => heading ++ "\nCaused by:\n" ++ String.join (numbered 0 causes)

/-! ## Outcomes -/

/-- What a run did: the text it printed, the files it wrote, the diagnostics it
showed, and why it failed if it did. -/
structure Outcome where
  output : String
  written : List (String × String)
  diagnostics : List String
  failure : Option Failure

/-- The exit code of a run. -/
def Outcome.code (outcome : Outcome) : Nat := if outcome.failure.isSome then 1 else 0

/-- What a run leaves of a directory it ran in. -/
def Outcome.apply (outcome : Outcome) (directory : Directory) : Directory :=
  outcome.written.foldl (fun directory file => directory.write file.1 file.2) directory

/-! ## Commands -/

/-- A failed step, with the diagnostics it shows. -/
structure Stop where
  failure : Failure
  diagnostics : List String

/-- Reads and decorates a file. -/
def load (reader : Reader) (path : String) : Except Stop (String × DecoratedTree) :=
  match reader path with
  | .error cause => .error ⟨.unreadable path cause, []⟩
  | .ok text =>
    match decorate text with
    | .ok tree => .ok (text, tree)
    | .error (.malformed diagnostics) =>
      .error ⟨.malformed path diagnostics.length, diagnostics.map (·.render path text)⟩
    | .error cause => .error ⟨.undecorated path cause, []⟩

/-- Reads a file and prints it back. -/
def reprint (reader : Reader) (path : String) : Except Stop (String × String) := do
  let (text, tree) ← load reader path
  match print tree with
  | .ok printed => .ok (text, printed)
  | .error cause => .error ⟨.unprinted cause, []⟩

/-- The outcome of a run that stopped after printing something. -/
def Stop.outcome (stop : Stop) (output : String) : Outcome :=
  ⟨output, [], stop.diagnostics, some stop.failure⟩

/-- Prints the paths of the files that come back changed, up to the first that
cannot be processed. -/
def checkAll (reader : Reader) (total : Nat) :
    List String → (changed : Nat) → (output : String) → Outcome
  | [], changed, output =>
    ⟨output, [], [], if 0 < changed then some (.changed changed total) else none⟩
  | path :: paths, changed, output =>
    match reprint reader path with
    | .error stop => stop.outcome output
    | .ok (text, printed) =>
      if printed = text then checkAll reader total paths changed output
      else checkAll reader total paths (changed + 1) (output ++ path ++ "\n")

/-- Runs a command. -/
def Command.run (reader : Reader) : Command → Outcome
  | roundTrip path overwrite =>
    match reprint reader path with
    | .error stop => stop.outcome ""
    | .ok (_, printed) =>
      if overwrite then ⟨"", [(path, printed)], [], none⟩ else ⟨printed, [], [], none⟩
  | check paths => checkAll reader paths.length paths 0 ""
  | dump path =>
    match load reader path with
    | .error stop => stop.outcome ""
    | .ok (_, tree) => ⟨tree.dump, [], [], none⟩

/-- Runs what the options ask for.  A faulty filter stops the run before its
command. -/
def Options.run (options : Options) (reader : Reader) : Outcome :=
  match options.filter with
  | some filter =>
    match LogFilter.check filter with
    | .ok () => options.command.run reader
    | .error fault => ⟨"", [], [], some (.badFilter filter fault)⟩
  | none => options.command.run reader

end CommandLine

end GoTrivia

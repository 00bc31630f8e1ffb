/-!
# Arguments

Three commands: print a file back from its decorated tree, report the files that do
not survive this unchanged, and dump a decorated tree.  The arguments either ask for
one of them or are misused.
-/

set_option autoImplicit false

namespace GoTrivia

namespace CommandLine

/-- What is to be done. -/
inductive Command
  /-- Print a file back, or overwrite it. -/
  | roundTrip (path : String) (overwrite : Bool)
  /-- Report the files that come back changed. -/
  | check (paths : List String)
  /-- Dump the decorated tree of a file. -/
  | dump (path : String)
deriving DecidableEq, Repr

/-- The files a command reads. -/
def Command.paths : Command → List String
  | roundTrip path _ => [path]
  | check paths => paths
  | dump path => [path]

/-- A command and the filter for the log. -/
structure Options where
  filter : Option String
  command : Command
deriving DecidableEq, Repr

/-- An argument by what it is for: the value of the log option, the overwrite flag,
a plain word, or a path behind two dashes. -/
inductive Word
  | log (filter : String)
  | overwrite
  | plain (text : String)
  | path (text : String)
deriving DecidableEq, Repr

namespace Word

/-- The log filter a word gives. -/
def filter? : Word → Option String
  | .log filter => some filter
  | _ => none

/-- The path a word gives. -/
def path? : Word → Option String
  | .plain text => some text
  | .path text => some text
  | _ => none

end Word

/-- Whether an argument is spelled like an option. -/
def isOption (argument : String) : Bool :=
  match argument.toList with
  | '-' :: _ :: _ => true
  | _ => false

/-- The log filter that an argument joins to its option by an equals sign. -/
def joinedFilter? (argument : String) : Option String :=
  let start := "--log=".toList
  if start.isPrefixOf argument.toList then
    some (String.ofList (argument.toList.drop start.length))
  else none

/-- The arguments by what they are for.  A filter that is not joined to its option
must not look like an option itself. -/
def words? : List String → Option (List Word)
  | [] => some []
  | ["--log"] => none
  | "--log" :: filter :: rest =>
    if isOption filter then none else (words? rest).map (.log filter :: ·)
  | "--" :: rest => some (rest.map .path)
  | argument :: rest =>
    match joinedFilter? argument with
    | some filter => (words? rest).map (.log filter :: ·)
    | none =>
      if argument = "--write" then (words? rest).map (.overwrite :: ·)
      else if isOption argument then none
      else (words? rest).map (.plain argument :: ·)

/-- The one element of a list that has at most one. -/
def atMostOne? {α : Type} : List α → Option (Option α)
  | [] => some none
  | [a] => some (some a)
  | _ => none

/-- The command with a given name. -/
def command? (name : String) (overwrite : Bool) (paths : List String) : Option Command :=
  match name, paths with
  | "roundtrip", [path] => some (.roundTrip path overwrite)
  | "check", paths => if overwrite then none else some (.check paths)
  | "dump", [path] => if overwrite then none else some (.dump path)
  | _, _ => none

/-- The options that the arguments ask for, unless they are misused.  Every option
may be given once in front of the command's name and once behind it; a filter
behind the name counts before one in front. -/
def Options.ofArgs? (args : List String) : Option Options := do
  let words ← words? args
  let outer ← atMostOne? ((words.takeWhile (·.filter?.isSome)).filterMap Word.filter?)
  match words.dropWhile (·.filter?.isSome) with
  | .plain name :: rest =>
    let inner ← atMostOne? (rest.filterMap Word.filter?)
    let overwrite ← atMostOne? (rest.filter (· == .overwrite))
    let command ← command? name overwrite.isSome (rest.filterMap Word.path?)
    return ⟨inner.or outer, command⟩
  | _ => none

/-- How the program is called. -/
def usage : String :=
  "usage: gotrivia [--log FILTER] (roundtrip PATH [--write] | check [PATH...] | dump PATH)"

end CommandLine

end GoTrivia

import GoTrivia.Decorate.Basic
import GoTrivia.Grammar.File
import GoTrivia.Print.Basic
import GoTrivia.Restore.Basic

/-!
# From text to tree and back

A text is parsed and decorated; a decorated tree is restored and printed.  Both
directions use the standard shapes unless others are asked for.
-/

set_option autoImplicit false

namespace GoTrivia

/-- The source tree of a text, or its diagnostics if there are any. -/
def sourceTree (text : String) : Except TreeError SourceTree :=
  let parsed := parse text
  if parsed.diagnostics.isEmpty then .ok parsed.tree
  else .error (.malformed parsed.diagnostics)

/-- The decorated tree of a text whose lines are found by a resolver. -/
def decorateWith (resolver : LineResolver) (text : String) : Except TreeError DecoratedTree := do
  let source ← sourceTree text
  (source.decorate .standard resolver).result

/-- The decorated tree of a text. -/
def decorate (text : String) : Except TreeError DecoratedTree :=
  decorateWith (.ofText text) text

/-- Prints a decorated tree by the shapes of a registry. -/
def DecoratedTree.printWith (tree : DecoratedTree) (registry : Registry) :
    Except TreeError String := do
  let restored ← (tree.restore registry).result
  restored.root.print registry restored.comments

/-- Prints a decorated tree. -/
def print (tree : DecoratedTree) : Except TreeError String :=
  tree.printWith .standard

/-! ## Writing to a bounded destination -/

/-- Where a text is written to: it takes so many bytes, if it is bounded at all, and
then fails in one of two ways. -/
structure Sink where
  capacity : Option Nat
  whenFull : WriteFailure
deriving DecidableEq, Repr

/-- The part of a text that a sink takes, and the failure if that is not all. -/
def Sink.accept (sink : Sink) (text : String) : String × Option WriteFailure :=
  match sink.capacity with
  | none => (text, none)
  | some capacity =>
    if byteLength text.toList ≤ capacity then (text, none)
    else (String.ofList (takeBytes capacity text.toList), some sink.whenFull)

/-- Prints a decorated tree to a sink: what was written, and the error if that is
not everything. -/
def DecoratedTree.printTo (tree : DecoratedTree) (registry : Registry) (sink : Sink) :
    String × Option TreeError :=
  match tree.printWith registry with
  | .error error => ("", some error)
  | .ok text =>
    let (written, failure) := sink.accept text
    (written, failure.map .unwritten)

end GoTrivia

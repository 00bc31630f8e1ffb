import GoTrivia.Diagnostic.Basic
import GoTrivia.Tree.Anchor
import GoTrivia.Tree.NodeKind

/-!
# What can go wrong with a tree

Everything that stops a tree from being decorated, restored or printed.  Each
error is a cause; its wording is decided in one place.  No partial result ever
comes with an error.
-/

set_option autoImplicit false

namespace GoTrivia

/-- How a node fails to fit its shape. -/
inductive Mismatch
  | slotCount (expected found : Nat)
  | slotKind
  | fixedText (expected found : String)
  | missing
  | presentWithout (other : Anchor)
  | missingAlthough (other : Anchor)
  | notToken
  | notNode
deriving DecidableEq, Repr

/-- The wording of a mismatch. -/
def Mismatch.reason : Mismatch → String
  | slotCount expected found => s!"expected {expected} slots, found {found}"
  | slotKind => "slot kind differs from shape"
  | fixedText expected found => s!"expected `{expected}`, found `{found}`"
  | missing => "required anchor is missing"
  | presentWithout other => s!"present without `{other.text}`"
  | missingAlthough other => s!"missing although `{other.text}` is present"
  | notToken => "not a token anchor"
  | notNode => "not a node anchor"

/-- Why a text did not reach its destination whole. -/
inductive WriteFailure
  | full
  | stalled
deriving DecidableEq, Repr

/-- The wording of a write failure. -/
def WriteFailure.message : WriteFailure → String
  | full => "writer is full"
  | stalled => "failed to write whole buffer"

/-- Why there is no result. -/
inductive TreeError
  | unknownShape (kind : NodeKind)
  | unresolved (offset : Nat)
  | mismatch (kind : NodeKind) (anchor : Anchor) (cause : Mismatch)
  | malformed (diagnostics : List Diagnostic)
  | unwritten (cause : WriteFailure)
deriving DecidableEq, Repr

/-- The wording of an error. -/
def TreeError.message : TreeError → String
  | unknownShape kind => s!"no shape is registered for node kind `{kind.text}`"
  | unresolved offset => s!"offset {offset} does not resolve to a line"
  | mismatch kind anchor cause =>
    s!"`{kind.text}` does not fit its shape at `{anchor.text}`: {cause.reason}"
  | malformed diagnostics => s!"source has {diagnostics.length} syntax error(s)"
  | unwritten cause => cause.message

end GoTrivia

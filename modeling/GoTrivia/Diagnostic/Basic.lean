import GoTrivia.Text.Span

/-!
# Diagnostics

A diagnostic says what is wrong with a stretch of source text.
-/

set_option autoImplicit false

namespace GoTrivia

/-- A message about a stretch of source text. -/
structure Diagnostic where
  message : String
  span : Span
deriving DecidableEq, Repr

/-- The stretch and the message on one line. -/
def Diagnostic.text (diagnostic : Diagnostic) : String :=
  s!"{diagnostic.span.text}: {diagnostic.message}"

end GoTrivia

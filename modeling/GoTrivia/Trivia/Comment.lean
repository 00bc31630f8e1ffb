import GoTrivia.Trivia.Spacing

/-!
# Comments

A line comment runs to the end of its line, so nothing can follow it there.  A
comment table lists comments and bare line breaks by offset, as the printer wants
them.
-/

set_option autoImplicit false

namespace GoTrivia

/-- Whether a comment runs to the end of its line. -/
def isLineComment (text : String) : Bool :=
  match text.toList with
  | '/' :: '/' :: _ => true
  | _ => false

/-- One row of a comment table: line breaks, then comments that share a line.  A
row without comments only carries the line breaks. -/
structure CommentEntry where
  offset : Nat
  spacing : Spacing
  texts : List String
deriving DecidableEq, Repr

/-- Whether printing the row ends a line somewhere. -/
def CommentEntry.breaksLine (entry : CommentEntry) : Bool :=
  entry.spacing ≠ .sameLine || entry.texts.any isLineComment

end GoTrivia

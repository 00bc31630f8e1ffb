import GoTrivia.OrderedMap
import GoTrivia.Tree.Anchor
import GoTrivia.Trivia.Spacing

/-!
# Decorations

The trivia around an anchor: groups in front of it and groups behind it.  A group
is a number of line breaks and the comments that share the line behind them; a
group without comments is a bare line break.  A node keeps its decorations by
anchor, and an anchor without trivia need not appear.
-/

set_option autoImplicit false

namespace GoTrivia

/-- Line breaks, then comments that share a line. -/
structure TriviaGroup where
  spacing : Spacing
  comments : List String
deriving DecidableEq, Repr

namespace TriviaGroup

/-- A group without comments. -/
def bare (spacing : Spacing) : TriviaGroup := ⟨spacing, []⟩

/-- A group with one comment. -/
def comment (spacing : Spacing) (text : String) : TriviaGroup := ⟨spacing, [text]⟩

end TriviaGroup

/-- The trivia in front of an anchor and behind it. -/
structure Decoration where
  before : List TriviaGroup
  after : List TriviaGroup
deriving DecidableEq, Repr, Inhabited

namespace Decoration

/-- No trivia. -/
def empty : Decoration := ⟨[], []⟩

/-- Whether there is no trivia on either side. -/
def isEmpty (decoration : Decoration) : Bool :=
  decoration.before.isEmpty && decoration.after.isEmpty

/-- The comments on both sides, in source order. -/
def comments (decoration : Decoration) : List String :=
  decoration.before.flatMap TriviaGroup.comments ++
    decoration.after.flatMap TriviaGroup.comments

end Decoration

/-- The decorations of a node by anchor. -/
abbrev Decorations := OrderedMap Anchor Decoration

namespace Decorations

/-- The decoration of an anchor, empty if it has none. -/
def ofAnchor (decorations : Decorations) (anchor : Anchor) : Decoration :=
  (decorations.get? anchor).getD .empty

end Decorations

end GoTrivia

import GoTrivia.Tree.Anchor
import GoTrivia.Tree.NodeKind

/-!
# Events

What decorating and restoring report about their progress, beside their result.
-/

set_option autoImplicit false

namespace GoTrivia

/-- Something worth noting. -/
inductive Event
  /-- A tree was laid out flat. -/
  | flattened (fragments comments : Nat)
  /-- The comments of a gap were split between its two sides. -/
  | assigned (after before : Nat)
  /-- Trivia on an anchor that prints nothing was dropped. -/
  | dropped (kind : NodeKind) (anchor : Anchor)
  /-- Positions were made up for a tree. -/
  | restored (positions comments : Nat)
deriving DecidableEq, Repr

namespace Event

/-- How much an event matters. -/
def level : Event → String
  | flattened _ _ => "DEBUG"
  | assigned _ _ => "TRACE"
  | dropped _ _ => "WARN"
  | restored _ _ => "DEBUG"

/-- What an event says. -/
def message : Event → String
  | flattened _ _ => "flattened"
  | assigned _ _ => "assigned comments"
  | dropped _ _ => "dropping trivia on an absent anchor"
  | restored _ _ => "restored"

/-- What an event says it about. -/
def fields : Event → List (String × String)
  | flattened fragments comments =>
    [("fragments", toString fragments), ("comments", toString comments)]
  | assigned after before => [("after", toString after), ("before", toString before)]
  | dropped kind anchor => [("kind", kind.text), ("anchor", anchor.text)]
  | restored positions comments =>
    [("positions", toString positions), ("comments", toString comments)]

end Event

/-- A result and the events on the way to it. -/
structure Traced (ε α : Type) where
  events : List Event
  result : Except ε α

end GoTrivia

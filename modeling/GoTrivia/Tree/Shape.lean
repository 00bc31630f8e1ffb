import GoTrivia.Tree.Anchor
import GoTrivia.Tree.NodeKind

/-!
# Shapes of nodes

A shape lists the anchors of a node kind in source order.  Each anchor owns one
slot of the node: a token, a child node or a list of nodes.  The shape also says
when a slot has to be filled, what text a token must have, and how the printer
separates the slot's content from what was printed before it.  Trees of any kind
can be walked, checked and printed by their shapes alone.
-/

set_option autoImplicit false

namespace GoTrivia

/-- The text of a token slot: prescribed, or as found in the source. -/
inductive TokenText
  | fixed (text : String)
  | free
deriving DecidableEq, Repr

/-- How the elements of a list are set. -/
inductive ListStyle
  /-- Elements follow each other on one line unless trivia breaks it. -/
  | inline
  /-- Every element starts its own line. -/
  | lines
  /-- Like `lines` if the node has its parentheses, else like `inline`. -/
  | grouped
deriving DecidableEq, Repr

/-- What stands between the elements of a list and how they are set. -/
structure ListLayout where
  separator : Option String
  style : ListStyle
deriving DecidableEq, Repr

/-- What a slot holds. -/
inductive SlotShape
  | token (text : TokenText)
  | child
  | list (layout : ListLayout)
deriving DecidableEq, Repr

/-- When a slot is filled. -/
inductive Presence
  | required
  | optional
  /-- Filled exactly when the slot of the named anchor is. -/
  | together (anchor : Anchor)
deriving DecidableEq, Repr

/-- What separates a slot's content from whatever was printed before it. -/
inductive Gap
  | glue
  | space
  /-- A space if the slot that follows is filled, as between `struct` and a brace
  that opens members. -/
  | spaceIfContent
  /-- A space unless the content starts with a parenthesis, as in a method. -/
  | spaceUnlessParen
  | line
deriving DecidableEq, Repr

/-- An anchor and the slot it owns. -/
structure AnchorShape where
  anchor : Anchor
  slot : SlotShape
  presence : Presence := .required
  gap : Gap := .glue
deriving DecidableEq, Repr

namespace AnchorShape

/-- Whether trivia may attach to the anchor itself.  A list is covered by its
delimiters and by the ends of its elements. -/
def isDecorated (shape : AnchorShape) : Bool :=
  match shape.slot with
  | .list _ => false
  | _ => true

/-- The slot may be empty. -/
def optional (shape : AnchorShape) : AnchorShape := { shape with presence := .optional }

/-- The slot is filled exactly when another one is. -/
def together (shape : AnchorShape) (anchor : Anchor) : AnchorShape :=
  { shape with presence := .together anchor }

/-- The content is separated by a gap. -/
def after (shape : AnchorShape) (gap : Gap) : AnchorShape := { shape with gap := gap }

/-- The content is separated by a space. -/
def spaced (shape : AnchorShape) : AnchorShape := shape.after .space

end AnchorShape

/-- The anchors of a node kind in source order, without the implicit `start` and
`finish`. -/
structure Shape where
  kind : NodeKind
  anchors : List AnchorShape
deriving DecidableEq, Repr

namespace Shape

/-- The place of an anchor among those the shape declares. -/
def indexOf? (shape : Shape) (anchor : Anchor) : Option Nat :=
  shape.anchors.findIdx? (·.anchor == anchor)

/-- What the shape declares for an anchor. -/
def find? (shape : Shape) (anchor : Anchor) : Option AnchorShape :=
  shape.anchors.find? (·.anchor == anchor)

/-- Whether trees of this shape have the anchor, implicitly or by declaration. -/
def hasAnchor (shape : Shape) (anchor : Anchor) : Bool :=
  anchor.isImplicit || (shape.indexOf? anchor).isSome

end Shape

end GoTrivia

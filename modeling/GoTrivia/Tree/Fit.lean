import GoTrivia.Tree.Basic
import GoTrivia.Tree.Registry

/-!
# Whether a tree fits its shapes

A node fits the shape a registry has for its kind if it has one slot of the right
kind for every anchor (`kindFault?` finds nothing).  It fits in full if moreover
its tokens have the prescribed texts and its slots are filled as the shape
prescribes (`fault?` finds nothing).  A wrong number of slots is found at `start`,
everything else at the first anchor that is at fault.
-/

set_option autoImplicit false

namespace GoTrivia

namespace SlotTree

variable {ν τ σ : Type}

/-- What is wrong with the number of slots. -/
def countFault? (shape : Shape) (tree : SlotTree ν τ σ) : Option TreeError :=
  if shape.anchors.length = tree.slots.length then none
  else some (.mismatch tree.kind .start (.slotCount shape.anchors.length tree.slots.length))

/-- What is wrong with a node whose slots only have to be of the right kinds. -/
def kindFault? (registry : Registry) (tree : SlotTree ν τ σ) : Option TreeError :=
  match registry.shape? tree.kind with
  | none => some (.unknownShape tree.kind)
  | some shape =>
    (tree.countFault? shape).or
      ((shape.anchors.zip tree.slots).findSome? fun (anchor, slot) =>
        if slot.fits anchor.slot then none
        else some (.mismatch tree.kind anchor.anchor .slotKind))

/-- Whether the slot a shape has for an anchor is filled. -/
def isPresentAt (shape : Shape) (tree : SlotTree ν τ σ) (anchor : Anchor) : Bool :=
  match shape.indexOf? anchor with
  | some index => (tree.slots[index]?).any Slot.isPresent
  | none => false

/-- What is wrong with the content of a slot. -/
def contentFault? (expected : SlotShape) (slot : Slot ν String σ) : Option Mismatch :=
  match expected, slot with
  | .token (.fixed expected), .token (some found) =>
    if found = expected then none else some (.fixedText expected found)
  | expected, slot => if slot.fits expected then none else some .slotKind

/-- What is wrong with a slot being filled or not. -/
def presenceFault? (presence : Presence) (present : Bool) (other : Anchor → Bool) :
    Option Mismatch :=
  match presence with
  | .required => if present then none else some .missing
  | .optional => none
  | .together anchor =>
    if present = other anchor then none
    else if present then some (.presentWithout anchor)
    else some (.missingAlthough anchor)

/-- What keeps a node from fitting in full. -/
def fault? (registry : Registry) (tree : SlotTree ν String σ) : Option TreeError :=
  match registry.shape? tree.kind with
  | none => some (.unknownShape tree.kind)
  | some shape =>
    (tree.countFault? shape).or
      ((shape.anchors.zip tree.slots).findSome? fun (anchor, slot) =>
        ((contentFault? anchor.slot slot).or
          (presenceFault? anchor.presence slot.isPresent (tree.isPresentAt shape))).map
            (.mismatch tree.kind anchor.anchor ·))

end SlotTree

end GoTrivia

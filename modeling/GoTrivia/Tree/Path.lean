import GoTrivia.Tree.Basic

/-!
# Paths into a tree

A path leads from the root to a subtree, from child to child and from list element
to list element.  Following one may fail at the first step the tree does not have;
the failure names that step's anchor.
-/

set_option autoImplicit false

namespace GoTrivia

/-- One step down: to the child of an anchor or to an element of its list. -/
inductive PathStep
  | child (anchor : Anchor)
  | element (anchor : Anchor) (index : Nat)
deriving DecidableEq, Repr

/-- The anchor a step goes through. -/
def PathStep.anchor : PathStep → Anchor
  | child anchor => anchor
  | element anchor _ => anchor

/-- Steps from the root on. -/
abbrev Path := List PathStep

namespace SlotTree

variable {ν τ σ : Type}

/-- The subtree one step down. -/
def step? (tree : SlotTree ν τ σ) : PathStep → Option (SlotTree ν τ σ)
  | .child anchor => tree.child? anchor
  | .element anchor index => (tree.elements anchor)[index]?

/-- The tree with the subtree one step down replaced.  A step the tree does not
have changes nothing. -/
def putStep (tree : SlotTree ν τ σ) (step : PathStep) (subtree : SlotTree ν τ σ) :
    SlotTree ν τ σ :=
  match step, tree.slot? step.anchor with
  | .child anchor, some (.child (some _)) => tree.setSlot anchor (.child (some subtree))
  | .element anchor index, some (.list elements separators) =>
    tree.setSlot anchor (.list (elements.set index subtree) separators)
  | _, _ => tree

/-- The subtree at a path, or the anchor at which the path leaves the tree. -/
def follow (tree : SlotTree ν τ σ) : Path → Except Anchor (SlotTree ν τ σ)
  | [] => .ok tree
  | step :: path =>
    match tree.step? step with
    | some subtree => subtree.follow path
    | none => .error step.anchor

/-- The tree with the subtree at a path replaced. -/
def put (tree : SlotTree ν τ σ) (path : Path) (subtree : SlotTree ν τ σ) : SlotTree ν τ σ :=
  match path with
  | [] => subtree
  | step :: path =>
    match tree.step? step with
    | some below => tree.putStep step (below.put path subtree)
    | none => tree

end SlotTree

end GoTrivia

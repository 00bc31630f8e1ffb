import GoTrivia.Decorate.Fragment
import GoTrivia.Event
import GoTrivia.Tree.Decorated
import GoTrivia.Tree.Fit
import GoTrivia.Trivia.Comment

/-!
# Making up positions for a tree

A decorated tree becomes a positional one with a comment table.  A counter walks
the tree in the order in which decorating lays trees out flat, and hands out one
offset to every trivia group, anchor and list separator.  Line breaks widen the
step.  The printer only compares offsets, so they need not match any text.

The separator of a list element stands between the element's end and the trivia
behind that end, so that a comment closing the line of an element is printed
behind the separator.

Everything that is handed out is logged in one sequence, from which the comment
table and the positions of the anchors are read.
-/

set_option autoImplicit false

namespace GoTrivia

/-- Where an anchor of some node came to stand. -/
structure AnchorPosition where
  kind : NodeKind
  anchor : Anchor
  offset : Nat
deriving DecidableEq, Repr

namespace Restore

/-- Something that was given an offset. -/
inductive Placed
  | group (entry : CommentEntry)
  | anchor (position : AnchorPosition)
  | separator (offset : Nat)
deriving DecidableEq, Repr

/-- The offset of a placed thing. -/
def Placed.offset : Placed → Nat
  | group entry => entry.offset
  | anchor position => position.offset
  | separator offset => offset

/-- The row of the comment table a placed thing makes. -/
def Placed.entry? : Placed → Option CommentEntry
  | group entry => some entry
  | _ => none

/-- The anchor position a placed thing makes. -/
def Placed.position? : Placed → Option AnchorPosition
  | anchor position => some position
  | _ => none

/-- The counter and the log. -/
structure Synthesis where
  counter : Nat
  log : Array Placed

/-- A walk that hands out offsets. -/
abbrev Synth := StateM Synthesis

/-- Hands out the next offset behind a number of line breaks. -/
def place (spacing : Spacing) (thing : Nat → Placed) : Synth Nat :=
  modifyGet fun state =>
    let offset := state.counter + (1 + spacing.lineBreaks)
    (offset, ⟨offset, state.log.push (thing offset)⟩)

/-- Places trivia groups in order. -/
def placeGroups : List TriviaGroup → Synth Unit
  | [] => return
  | group :: groups => do
    let _ ← place group.spacing fun offset => .group ⟨offset, group.spacing, group.comments⟩
    placeGroups groups

/-- Places an anchor behind the trivia in front of it. -/
def placeAnchor (kind : NodeKind) (decorations : Decorations) (anchor : Anchor) : Synth Nat := do
  placeGroups (decorations.ofAnchor anchor).before
  place .sameLine fun offset => .anchor ⟨kind, anchor, offset⟩

/-- Places the trivia behind an anchor. -/
def placeAfter (decorations : Decorations) (anchor : Anchor) : Synth Unit :=
  placeGroups (decorations.ofAnchor anchor).after

/-- Places an anchor with the trivia on both sides. -/
def placePoint (kind : NodeKind) (decorations : Decorations) (anchor : Anchor) : Synth Nat := do
  let offset ← placeAnchor kind decorations anchor
  placeAfter decorations anchor
  return offset

/-- Whether elements of a slot have separators behind them. -/
def isSeparated : SlotShape → Bool
  | .list layout => layout.separator.isSome
  | _ => false

mutual
/-- Places a tree up to its finish, without the trivia behind it. -/
def enclosed (registry : Registry) : Decorated → Synth Positional
  | .node kind decorations slots => do
    let start ← placePoint kind decorations .start
    let slots ← placeSlots registry kind decorations (registry.anchorsOf kind) slots
    let stop ← placeAnchor kind decorations .finish
    return .node kind ⟨start, stop⟩ slots

/-- Places the slots of a node. -/
def placeSlots (registry : Registry) (kind : NodeKind) (decorations : Decorations)
    (shapes : List AnchorShape) : List DecoratedSlot → Synth (List PositionalSlot)
  | [] => return []
  | slot :: slots => do
    match shapes with
    | [] => return []
    | shape :: shapes =>
      let slot ← placeSlot registry kind decorations shape slot
      let slots ← placeSlots registry kind decorations shapes slots
      return slot :: slots

/-- Places one slot. -/
def placeSlot (registry : Registry) (kind : NodeKind) (decorations : Decorations)
    (shape : AnchorShape) : DecoratedSlot → Synth PositionalSlot
  | .token none => return .token none
  | .token (some text) => do
    let offset ← placePoint kind decorations shape.anchor
    return .token (some ⟨text, .point offset⟩)
  | .child none => return .child none
  | .child (some child) => do
    let placed ← enclosed registry child
    placeAfter child.info .finish
    let _ ← placePoint kind decorations shape.anchor
    return .child (some placed)
  | .list elements _ => do
    let (elements, separators) ← placeElements registry (isSeparated shape.slot) elements
    return .list elements separators

/-- Places list elements, with their separators if they have any. -/
def placeElements (registry : Registry) (separated : Bool) :
    List Decorated → Synth (List Positional × List Span)
  | [] => return ([], [])
  | tree :: trees => do
    let placed ← enclosed registry tree
    if separated then
      let offset ← place .sameLine .separator
      placeAfter tree.info .finish
      let (placedTrees, separators) ← placeElements registry separated trees
      return (placed :: placedTrees, .point offset :: separators)
    else
      placeAfter tree.info .finish
      let (placedTrees, separators) ← placeElements registry separated trees
      return (placed :: placedTrees, separators)
end

/-- Places a tree with the trivia behind it. -/
def placeTree (registry : Registry) (tree : Decorated) : Synth Positional := do
  let placed ← enclosed registry tree
  placeAfter tree.info .finish
  return placed

/-! ## Trivia that has no place -/

/-- Whether the trivia of an anchor is placed: that of a node's ends, and that of an
anchor that holds a token or a child. -/
def isPlaced (shape : Shape) (tree : Decorated) (anchor : Anchor) : Bool :=
  anchor.isImplicit ||
    match shape.indexOf? anchor with
    | some index => (tree.slots[index]?).any Slot.isAttached
    | none => false

/-- The anchors of a node whose trivia is dropped. -/
def droppedAnchors (shape : Shape) (tree : Decorated) : List Anchor :=
  tree.info.entries.filterMap fun (anchor, decoration) =>
    if decoration.isEmpty || isPlaced shape tree anchor then none else some anchor

/-- What is reported about the dropped trivia of a node. -/
def dropEvents (registry : Registry) (tree : Decorated) : List Event :=
  match registry.shape? tree.kind with
  | some shape => (droppedAnchors shape tree).map (.dropped tree.kind ·)
  | none => []

/-- Checks nodes one after the other, up to the first that does not fit. -/
def audit (registry : Registry) : List Decorated → Traced TreeError Unit
  | [] => ⟨[], .ok ()⟩
  | tree :: trees =>
    match SlotTree.fault? registry tree with
    | some error => ⟨[], .error error⟩
    | none =>
      let rest := audit registry trees
      ⟨dropEvents registry tree ++ rest.events, rest.result⟩

end Restore

/-- A tree with made-up positions and the comment table that goes with it. -/
structure Restored where
  root : Positional
  log : List Restore.Placed
  metadata : Metadata

namespace Restored

/-- The comment table, in order of offset. -/
def comments (restored : Restored) : List CommentEntry :=
  restored.log.filterMap Restore.Placed.entry?

/-- The positions of all anchors, in the order of the walk. -/
def positions (restored : Restored) : List AnchorPosition :=
  restored.log.filterMap Restore.Placed.position?

end Restored

namespace DecoratedTree

/-- Places a tree from a fresh counter on. -/
def place (tree : DecoratedTree) (registry : Registry) : Restored :=
  let (root, state) := (Restore.placeTree registry tree.root).run ⟨0, #[]⟩
  ⟨root, state.log.toList, tree.metadata⟩

/-- Restores a decorated tree by the shapes of a registry.  The first node that does
not fit its shape stops this. -/
def restore (tree : DecoratedTree) (registry : Registry) : Traced TreeError Restored :=
  let audited := Restore.audit registry tree.root.preorder
  match audited.result with
  | .error error => ⟨audited.events, .error error⟩
  | .ok () =>
    let restored := tree.place registry
    ⟨audited.events ++ [.restored restored.positions.length restored.comments.length],
      .ok restored⟩

end DecoratedTree

end GoTrivia

import GoTrivia.Decorate.CommentGap
import GoTrivia.Tree.Decorated
import GoTrivia.Tree.Fit

/-!
# Decorating a tree

A source tree becomes a decorated one: the tree is laid out flat with its nodes where
the resolver puts them, every comment is assigned to a point, and the tree is built up
again, each point taking the next decoration in line.  The first node that does not fit its shape stops this, then
the first offset that lies on no line.
-/

set_option autoImplicit false

namespace GoTrivia

namespace Decorate

/-- Moves the next decoration in line to an anchor.  An empty one leaves no
trace. -/
def attach (decorations : Decorations) (anchor : Anchor) :
    List Decoration → Decorations × List Decoration
  | [] => (decorations, [])
  | next :: rest => (if next.isEmpty then decorations else decorations.insert anchor next, rest)

mutual
/-- Builds up a decorated tree, with the decorations that are left over. -/
def rebuild (registry : Registry) :
    Positional → List Decoration → Decorated × List Decoration
  | .node kind _ slots, supply =>
    let (decorations, supply) := attach .empty .start supply
    let (slots, decorations, supply) :=
      rebuildSlots registry (registry.anchorsOf kind) slots decorations supply
    let (decorations, supply) := attach decorations .finish supply
    (.node kind decorations slots, supply)

/-- Builds up slots, with the decorations of their anchors and those left over. -/
def rebuildSlots (registry : Registry) (shapes : List AnchorShape) :
    List PositionalSlot → Decorations → List Decoration →
      List DecoratedSlot × Decorations × List Decoration
  | [], decorations, supply => ([], decorations, supply)
  | slot :: slots, decorations, supply =>
    match shapes with
    | [] => ([], decorations, supply)
    | shape :: shapes =>
      let (slot, decorations, supply) :=
        rebuildSlot registry shape.anchor slot decorations supply
      let (slots, decorations, supply) :=
        rebuildSlots registry shapes slots decorations supply
      (slot :: slots, decorations, supply)

/-- Builds up one slot. -/
def rebuildSlot (registry : Registry) (anchor : Anchor) :
    PositionalSlot → Decorations → List Decoration →
      DecoratedSlot × Decorations × List Decoration
  | .token none, decorations, supply => (.token none, decorations, supply)
  | .token (some lexeme), decorations, supply =>
    let (decorations, supply) := attach decorations anchor supply
    (.token (some lexeme.text), decorations, supply)
  | .child none, decorations, supply => (.child none, decorations, supply)
  | .child (some child), decorations, supply =>
    let (child, supply) := rebuild registry child supply
    let (decorations, supply) := attach decorations anchor supply
    (.child (some child), decorations, supply)
  | .list elements _, decorations, supply =>
    let (elements, supply) := rebuildElements registry elements supply
    (.list elements (), decorations, supply)

/-- Builds up list elements. -/
def rebuildElements (registry : Registry) :
    List Positional → List Decoration → List Decorated × List Decoration
  | [], supply => ([], supply)
  | tree :: trees, supply =>
    let (tree, supply) := rebuild registry tree supply
    let (trees, supply) := rebuildElements registry trees supply
    (tree :: trees, supply)
end

end Decorate

/-- Decorates a source tree by the shapes of a registry, with its nodes and the lines of
its offsets found by a resolver. -/
def SourceTree.decorate (source : SourceTree) (registry : Registry) (resolver : LineResolver) :
    Traced TreeError DecoratedTree :=
  match source.root.preorder.findSome? (SlotTree.kindFault? registry) with
  | some error => ⟨[], .error error⟩
  | none =>
    let fragments := (source.resolved resolver).fragments
    let assigned :=
      CommentGap.assignAll resolver (CommentGap.ofFragments none fragments source.comments)
    ⟨.flattened fragments.length source.comments.length :: assigned.events,
      assigned.result.map fun assignments =>
        let decorations := CommentGap.decorations none assignments
        ⟨(Decorate.rebuild registry source.root decorations).1, source.metadata⟩⟩

end GoTrivia

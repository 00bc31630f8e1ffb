import GoTrivia.OrderedMap
import GoTrivia.Text.Quoted
import GoTrivia.Text.Span
import GoTrivia.Tree.Dump

/-!
# Positional trees

The tree of a source text: every node, token and list separator has a span.  The
spans are those of the text, or made up in the same order for a tree that has no
text yet.  A source tree adds the comments, which the grammar leaves out of the
tree, and the metadata of the file.
-/

set_option autoImplicit false

namespace GoTrivia

/-- A tree with spans.  A list keeps the spans of the separators behind its
elements, in order. -/
abbrev Positional := SlotTree Span Lexeme (List Span)

/-- A slot of a positional tree. -/
abbrev PositionalSlot := Slot Span Lexeme (List Span)

namespace Positional

/-- The span of the root. -/
abbrev span (tree : Positional) : Span := tree.info

/-- Shows spans behind nodes and tokens. -/
def dumpStyle : DumpStyle Span Lexeme where
  heading span := "@" ++ span.text
  token lexeme := Text.quote lexeme.text ++ "@" ++ lexeme.span.text
  notes _ _ _ := []

/-- The dump of a positional tree. -/
def dump (tree : Positional) : String := SlotTree.dump dumpStyle tree

/-- Forgets all spans. -/
def erase (tree : Positional) : Bare := tree.map (fun _ => ()) Lexeme.text (fun _ => ())

/-- The separators of one list of a node. -/
structure Separators where
  kind : NodeKind
  anchor : Anchor
  spans : List Span
deriving DecidableEq, Repr

/-- The separators of the lists of one node. -/
def ownSeparators (kind : NodeKind) (anchor : Anchor) : PositionalSlot → List Separators
  | .list _ [] => []
  | .list _ spans => [⟨kind, anchor, spans⟩]
  | _ => []

mutual
/-- The separators of every list that has some, a list before those inside its
elements. -/
def separators : Positional → List Separators
  | .node kind _ slots => separatorsSlots kind (standardShape kind).anchors slots

/-- The separators in the slots of a node. -/
def separatorsSlots (kind : NodeKind) (shapes : List AnchorShape) :
    List PositionalSlot → List Separators
  | [] => []
  | slot :: slots =>
    match shapes with
    | [] => []
    | shape :: shapes =>
      ownSeparators kind shape.anchor slot ++ separatorsSlot slot ++
        separatorsSlots kind shapes slots

/-- The separators inside the trees of one slot. -/
def separatorsSlot : PositionalSlot → List Separators
  | .token _ => []
  | .child none => []
  | .child (some child) => separators child
  | .list elements _ => separatorsElements elements

/-- The separators inside a list of trees. -/
def separatorsElements : List Positional → List Separators
  | [] => []
  | tree :: trees => separators tree ++ separatorsElements trees
end

end Positional

/-- Everything a source text holds: its tree, its comments in source order and the
metadata read off them. -/
structure SourceTree where
  root : Positional
  comments : List Lexeme
  metadata : Metadata

end GoTrivia

import GoTrivia.Tree.Positional

/-!
# Trees laid out flat

The points of a tree that trivia can attach to, in source order: the start and
finish of every node, every token, and the place right behind every child.  List
separators stand between them, because they decide which element a comment
belongs to.  Each comment of a source text falls between two neighbouring
fragments.
-/

set_option autoImplicit false

namespace GoTrivia

/-- A point of a tree or a separator between list elements. -/
inductive Fragment
  | point (span : Span)
  | separator (span : Span)
deriving DecidableEq, Repr

namespace Fragment

/-- Where a fragment stands. -/
def span : Fragment → Span
  | point span => span
  | separator span => span

/-- Whether a fragment can carry trivia. -/
def isPoint : Fragment → Bool
  | point _ => true
  | separator _ => false

end Fragment

namespace Positional

mutual
/-- The fragments of a tree. -/
def fragments : Positional → List Fragment
  | .node _ span slots =>
    .point (.point span.start) :: (fragmentsSlots slots ++ [.point (.point span.stop)])

/-- The fragments of a list of slots. -/
def fragmentsSlots : List PositionalSlot → List Fragment
  | [] => []
  | .token none :: slots => fragmentsSlots slots
  | .token (some lexeme) :: slots => .point lexeme.span :: fragmentsSlots slots
  | .child none :: slots => fragmentsSlots slots
  | .child (some child) :: slots =>
    fragments child ++ .point (.point (span child).stop) :: fragmentsSlots slots
  | .list elements separators :: slots =>
    fragmentsElements separators elements ++ fragmentsSlots slots

/-- The fragments of list elements, each with the separator behind it. -/
def fragmentsElements (separators : List Span) : List Positional → List Fragment
  | [] => []
  | tree :: trees =>
    fragments tree ++ (separators.head?.map Fragment.separator).toList ++
      fragmentsElements (separators.drop 1) trees
end

end Positional

end GoTrivia

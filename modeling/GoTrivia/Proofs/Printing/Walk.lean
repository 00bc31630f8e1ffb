import GoTrivia.Print.Basic
import GoTrivia.Tree.Decorated

/-!
# The order in which a tree is written

The walk of a decorated tree lists its tokens and comments in the order in which they
have to appear in the printed text.  It is defined on the decorated tree alone: no
offset is handed out, no table is consulted, and blanks are left out.

**Points.** The comments of an anchor surround the token of the anchor.  The comments of
an anchor that holds a child follow everything of the child.

**Separators.** The separator of a list element stands between the comments in front of
the element's finish and those behind it.  The last element of a list has a separator
only if the list is closed on a later line: the next filled slot of the node holds a
token, and some trivia between the element and that token ends a line (`closesLater`).
-/

set_option autoImplicit false

namespace GoTrivia

namespace Print

/-- Whether a mark is a token or a comment.  The other marks are blanks. -/
def Mark.isItem : Mark → Bool
  | token _ => true
  | comment _ => true
  | space => false
  | tab => false
  | lineFeed => false

/-- What is found in marks is found in their items, if it is not found in blanks. -/
theorem filterMap_filter_isItem {β : Type} {f : Mark → Option β}
    (noItem : ∀ mark, mark.isItem = false → f mark = none) (marks : List Mark) :
    (marks.filter Mark.isItem).filterMap f = marks.filterMap f := by
  induction marks with
  | nil => rfl
  | cons mark marks ih =>
    rw [List.filter_cons, List.filterMap_cons]
    cases isItem : mark.isItem with
    | true => rw [if_pos rfl, List.filterMap_cons, ih]
    | false => rw [if_neg Bool.false_ne_true, ih, noItem mark isItem]

end Print

open Print (Mark)

/-- Whether writing a trivia group ends a line somewhere. -/
def TriviaGroup.breaksLine (group : TriviaGroup) : Bool :=
  group.spacing ≠ .sameLine || group.comments.any isLineComment

/-- The comments of trivia groups as marks. -/
def commentMarks (groups : List TriviaGroup) : List Mark :=
  groups.flatMap fun group => group.comments.map Mark.comment

/-- Marks between the comments on both sides of an anchor. -/
def Decorations.around (decorations : Decorations) (anchor : Anchor) (marks : List Mark) :
    List Mark :=
  commentMarks (decorations.ofAnchor anchor).before ++ marks ++
    commentMarks (decorations.ofAnchor anchor).after

/-- The separator a slot shape puts behind list elements. -/
def SlotShape.separator? : SlotShape → Option String
  | .list layout => layout.separator
  | _ => none

namespace Decorated

/-- The trivia in front of the token that follows, if a token comes before any other
content. -/
def closing? (decorations : Decorations) :
    List AnchorShape → List DecoratedSlot → Option (List TriviaGroup)
  | shape :: _, .token (some _) :: _ => some (decorations.ofAnchor shape.anchor).before
  | _ :: shapes, slot :: slots =>
    if slot.isPresent then none else closing? decorations shapes slots
  | _, _ => none

/-- The comments and line breaks behind the finish of a tree. -/
def trailing (tree : Decorated) : List TriviaGroup := (tree.info.ofAnchor .finish).after

/-- Whether a line ends between the finish of a tree and the token that follows. -/
def closesLater (tree : Decorated) (closing : Option (List TriviaGroup)) : Bool :=
  closing.any fun before => (trailing tree ++ before).any TriviaGroup.breaksLine

/-- The separator behind a list element. -/
def separatorMarks (separator : Option String) (written : Bool) : List Mark :=
  if written then separator.toList.map Mark.token else []

mutual
/-- The tokens and comments of a tree up to its finish, without the comments behind
it. -/
def walk (registry : Registry) : Decorated → List Mark
  | .node kind decorations slots =>
    decorations.around .start [] ++
      walkSlots registry decorations (registry.anchorsOf kind) slots ++
      commentMarks (decorations.ofAnchor .finish).before

/-- The tokens and comments of the slots of a node. -/
def walkSlots (registry : Registry) (decorations : Decorations) (shapes : List AnchorShape) :
    List DecoratedSlot → List Mark
  | [] => []
  | slot :: slots =>
    match shapes with
    | [] => []
    | shape :: shapes =>
      walkSlot registry decorations shape (closing? decorations shapes slots) slot ++
        walkSlots registry decorations shapes slots

/-- The tokens and comments of one slot, given the trivia in front of the token that
follows it. -/
def walkSlot (registry : Registry) (decorations : Decorations) (shape : AnchorShape)
    (closing : Option (List TriviaGroup)) : DecoratedSlot → List Mark
  | .token none => []
  | .token (some text) => decorations.around shape.anchor [.token text]
  | .child none => []
  | .child (some child) =>
    walk registry child ++ commentMarks (trailing child) ++ decorations.around shape.anchor []
  | .list elements _ => walkElements registry shape.slot.separator? closing elements

/-- The tokens and comments of list elements with their separators. -/
def walkElements (registry : Registry) (separator : Option String)
    (closing : Option (List TriviaGroup)) : List Decorated → List Mark
  | [] => []
  | tree :: trees =>
    walk registry tree ++
      separatorMarks separator (!trees.isEmpty || closesLater tree closing) ++
      commentMarks (trailing tree) ++ walkElements registry separator closing trees
end

/-- The tokens and comments of a whole tree. -/
def fullWalk (registry : Registry) (tree : Decorated) : List Mark :=
  walk registry tree ++ commentMarks (trailing tree)

end Decorated

end GoTrivia

import GoTrivia.Text.LineIndex
import GoTrivia.Tree.Positional

/-!
# Resolvers

Decorating asks on which lines offsets lie and where nodes begin and end.  A resolver
answers both.  Nodes lie where their spans say unless a resolver puts them elsewhere,
and then only they move: tokens, separators and comments stay.
-/

set_option autoImplicit false

namespace GoTrivia

/-- A way to place offsets on lines and nodes at offsets.  An offset it cannot place
stops whoever asked. -/
structure LineResolver where
  lineOf? : Nat → Option Nat
  resolve : Positional → Span := Positional.span

namespace LineResolver

/-- Places offsets on the lines of a text. -/
def ofText (text : String) : LineResolver := { lineOf? := (LineIndex.ofText text).lineOf? }

/-- Places nothing. -/
def nowhere : LineResolver := { lineOf? := fun _ => none }

end LineResolver

namespace Positional

mutual
/-- The tree with every node where it is resolved to be. -/
def respan (resolve : Positional → Span) : Positional → Positional
  | .node kind span slots =>
    .node kind (resolve (.node kind span slots)) (respanSlots resolve slots)

/-- Slots with every node below them where it is resolved to be. -/
def respanSlots (resolve : Positional → Span) : List PositionalSlot → List PositionalSlot
  | [] => []
  | .token lexeme :: slots => .token lexeme :: respanSlots resolve slots
  | .child none :: slots => .child none :: respanSlots resolve slots
  | .child (some child) :: slots =>
    .child (some (respan resolve child)) :: respanSlots resolve slots
  | .list elements separators :: slots =>
    .list (respanElements resolve elements) separators :: respanSlots resolve slots

/-- Trees with every node where it is resolved to be. -/
def respanElements (resolve : Positional → Span) : List Positional → List Positional
  | [] => []
  | tree :: trees => respan resolve tree :: respanElements resolve trees
end

end Positional

/-- The tree of a source with its nodes where a resolver puts them. -/
def SourceTree.resolved (source : SourceTree) (resolver : LineResolver) : Positional :=
  source.root.respan resolver.resolve

end GoTrivia

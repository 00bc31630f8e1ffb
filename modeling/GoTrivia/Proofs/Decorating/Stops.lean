import GoTrivia.Proofs.Grammar.Fitting
import GoTrivia.Proofs.Printing.Walk

/-!
# The stops of a tree

A tree is passed from left to right, with a stop at every point that takes a decoration.
A separator is no stop of its own: it belongs to the finish of the element in front of it,
since the comments on both sides of the separator are kept there.

**Last elements.** The finish of the last element of a list is told apart, with a separator
behind it or without one.  What is written there depends on where the list is closed.
-/

set_option autoImplicit false

namespace GoTrivia

open Print (Mark)

/-- A point of a tree, with what stands there. -/
inductive Stop
  /-- A token. -/
  | token (lexeme : Lexeme)
  /-- A point without a token. -/
  | place (offset : Nat)
  /-- The finish of the last element of a list, without a separator behind it. -/
  | last (offset : Nat)
  /-- The finish of a list element with the separator behind it. -/
  | element (offset : Nat) (separator : Span) (isLast : Bool)

namespace Stop

/-- The fragments of a stop. -/
def fragments : Stop → List Fragment
  | token lexeme => [.point lexeme.span]
  | place offset => [.point (.point offset)]
  | last offset => [.point (.point offset)]
  | element offset separator _ => [.point (.point offset), .separator separator]

@[simp]
theorem fragments_token (lexeme : Lexeme) : (token lexeme).fragments = [.point lexeme.span] := rfl

@[simp]
theorem fragments_place (offset : Nat) :
    (place offset).fragments = [.point (.point offset)] := rfl

/-- The finish of a list element. -/
def behind (separated : Bool) (separator : Option Span) (isLast : Bool) (offset : Nat) : Stop :=
  match separator with
  | some span => .element offset span isLast
  | none => if separated && isLast then .last offset else .place offset

end Stop

namespace Positional

mutual
/-- The stops of a tree, given what its finish is. -/
def stops (finish : Nat → Stop) : Positional → List Stop
  | .node kind span slots =>
    .place span.start ::
      (stopsSlots (standardShape kind).anchors slots ++ [finish span.stop])

/-- The stops of the slots of a node. -/
def stopsSlots (shapes : List AnchorShape) : List PositionalSlot → List Stop
  | [] => []
  | slot :: slots =>
    match shapes with
    | [] => []
    | shape :: shapes => stopsSlot shape.slot slot ++ stopsSlots shapes slots

/-- The stops of one slot. -/
def stopsSlot (shape : SlotShape) : PositionalSlot → List Stop
  | .token none => []
  | .token (some lexeme) => [.token lexeme]
  | .child none => []
  | .child (some child) => stops .place child ++ [.place (span child).stop]
  | .list elements separators => stopsElements shape.separator?.isSome separators elements

/-- The stops of list elements. -/
def stopsElements (separated : Bool) (separators : List Span) : List Positional → List Stop
  | [] => []
  | tree :: trees =>
    stops (Stop.behind separated separators.head? trees.isEmpty) tree ++
      stopsElements separated (separators.drop 1) trees
end

/-! ## Stops and fragments -/

mutual
/-- The stops of a tree have the fragments of the tree. -/
theorem fragments_stops : ∀ (tree : Positional) (finish : Nat → Stop) (extra : List Fragment),
    (∀ node ∈ tree.preorder, SpelledNode node) →
    (∀ offset, (finish offset).fragments = .point (.point offset) :: extra) →
    (stops finish tree).flatMap Stop.fragments = tree.fragments ++ extra
  | .node kind span slots, finish, extra, spelled, closes => by
      rw [SlotTree.preorder] at spelled
      obtain ⟨⟨tokens, content, -⟩, below⟩ := List.forall_mem_cons.mp spelled
      have inside := fragments_stopsSlots (standardShape kind).anchors slots
        (Nat.le_of_eq content.fits.1.symm) below
      simp [stops, fragments, inside, closes]

theorem fragments_stopsSlots : ∀ (shapes : List AnchorShape) (slots : List PositionalSlot),
    slots.length ≤ shapes.length → (∀ node ∈ SlotTree.preorderSlots slots, SpelledNode node) →
    (stopsSlots shapes slots).flatMap Stop.fragments = fragmentsSlots slots
  | _, [], _, _ => by simp [stopsSlots, fragmentsSlots]
  | [], slot :: slots, enough, _ => by simp at enough
  | shape :: shapes, .token token :: slots, enough, spelled => by
      have rest := fragments_stopsSlots shapes slots (by simpa using enough) spelled
      cases token <;> simp [stopsSlots, stopsSlot, fragmentsSlots, rest]
  | shape :: shapes, .child none :: slots, enough, spelled => by
      have rest := fragments_stopsSlots shapes slots (by simpa using enough) spelled
      simp [stopsSlots, stopsSlot, fragmentsSlots, rest]
  | shape :: shapes, .child (some child) :: slots, enough, spelled => by
      obtain ⟨first, below⟩ := List.forall_mem_append.mp spelled
      have here := fragments_stops child .place [] first fun _ => rfl
      have rest := fragments_stopsSlots shapes slots (by simpa using enough) below
      simp [stopsSlots, stopsSlot, fragmentsSlots, here, rest]
  | shape :: shapes, .list elements separators :: slots, enough, spelled => by
      obtain ⟨first, below⟩ := List.forall_mem_append.mp spelled
      have here := fragments_stopsElements shape.slot.separator?.isSome separators elements first
      have rest := fragments_stopsSlots shapes slots (by simpa using enough) below
      simp [stopsSlots, stopsSlot, fragmentsSlots, here, rest]

theorem fragments_stopsElements (separated : Bool) :
    ∀ (separators : List Span) (trees : List Positional),
      (∀ node ∈ SlotTree.preorderElements trees, SpelledNode node) →
      (stopsElements separated separators trees).flatMap Stop.fragments =
        fragmentsElements separators trees
  | _, [], _ => by simp [stopsElements, fragmentsElements]
  | separators, tree :: trees, spelled => by
      obtain ⟨first, below⟩ := List.forall_mem_append.mp spelled
      have here := fragments_stops tree (Stop.behind separated separators.head? trees.isEmpty)
        (separators.head?.map Fragment.separator).toList first (by
          intro offset
          unfold Stop.behind
          cases separators.head? with
          | none => simp only; split <;> rfl
          | some span => rfl)
      have rest := fragments_stopsElements separated (separators.drop 1) trees below
      rw [stopsElements, fragmentsElements, List.flatMap_append, here, rest]
end

end Positional

end GoTrivia

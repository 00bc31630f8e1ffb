import GoTrivia.Proofs.Decorating.Conserving

/-!
# The anchors of points

Every point of a tree belongs to an anchor: the start or the finish of a node, a token, or the
place behind a child.  The anchors depend on the shape of the tree only, so decorating a tree
keeps them.  What stands in front of a separator is the finish of the element it follows.
-/

set_option autoImplicit false

namespace GoTrivia

open Positional

namespace SlotTree

variable {ν τ σ ν' τ' σ' : Type}

mutual
/-- The anchors of the points of a tree in walk order. -/
def walkAnchors (registry : Registry) : SlotTree ν τ σ → List Anchor
  | .node kind _ slots =>
    .start :: (walkAnchorsSlots registry (registry.anchorsOf kind) slots ++ [.finish])

/-- The anchors of the points of the slots of a node. -/
def walkAnchorsSlots (registry : Registry) (shapes : List AnchorShape) :
    List (Slot ν τ σ) → List Anchor
  | [] => []
  | slot :: slots =>
    match shapes with
    | [] => []
    | shape :: shapes =>
      walkAnchorsSlot registry shape.anchor slot ++ walkAnchorsSlots registry shapes slots

/-- The anchors of the points of one slot. -/
def walkAnchorsSlot (registry : Registry) (anchor : Anchor) : Slot ν τ σ → List Anchor
  | .token none => []
  | .token (some _) => [anchor]
  | .child none => []
  | .child (some child) => walkAnchors registry child ++ [anchor]
  | .list elements _ => walkAnchorsElements registry elements

/-- The anchors of the points of list elements. -/
def walkAnchorsElements (registry : Registry) : List (SlotTree ν τ σ) → List Anchor
  | [] => []
  | tree :: trees => walkAnchors registry tree ++ walkAnchorsElements registry trees
end

section Mapped

variable (registry : Registry) (onNode : ν → ν') (onToken : τ → τ') (onList : σ → σ')

mutual
/-- What a tree carries does not matter for its anchors. -/
theorem walkAnchors_map : ∀ tree : SlotTree ν τ σ,
    (tree.map onNode onToken onList).walkAnchors registry = tree.walkAnchors registry
  | .node kind info slots => by
      rw [map, walkAnchors, walkAnchors, walkAnchorsSlots_map]

theorem walkAnchorsSlots_map : ∀ (shapes : List AnchorShape) (slots : List (Slot ν τ σ)),
    walkAnchorsSlots registry shapes (mapSlots onNode onToken onList slots) =
      walkAnchorsSlots registry shapes slots
  | _, [] => by simp [mapSlots, walkAnchorsSlots]
  | [], slot :: slots => by cases slot with
      | token => simp [mapSlots, walkAnchorsSlots]
      | child child => cases child <;> simp [mapSlots, walkAnchorsSlots]
      | list => simp [mapSlots, walkAnchorsSlots]
  | shape :: shapes, .token token :: slots => by
      cases token <;>
        simp [mapSlots, walkAnchorsSlots, walkAnchorsSlot, walkAnchorsSlots_map shapes slots]
  | shape :: shapes, .child none :: slots => by
      simp [mapSlots, walkAnchorsSlots, walkAnchorsSlot, walkAnchorsSlots_map shapes slots]
  | shape :: shapes, .child (some child) :: slots => by
      simp [mapSlots, walkAnchorsSlots, walkAnchorsSlot, walkAnchorsSlots_map shapes slots,
        walkAnchors_map child]
  | shape :: shapes, .list elements _ :: slots => by
      simp [mapSlots, walkAnchorsSlots, walkAnchorsSlot, walkAnchorsSlots_map shapes slots,
        walkAnchorsElements_map elements]

theorem walkAnchorsElements_map : ∀ trees : List (SlotTree ν τ σ),
    walkAnchorsElements registry (mapElements onNode onToken onList trees) =
      walkAnchorsElements registry trees
  | [] => by simp [mapElements, walkAnchorsElements]
  | tree :: trees => by
      simp [mapElements, walkAnchorsElements, walkAnchors_map tree, walkAnchorsElements_map trees]
end

end Mapped

end SlotTree

open SlotTree (walkAnchors walkAnchorsSlots walkAnchorsSlot walkAnchorsElements)

/-- Fragments with the anchors of their points, in which every separator stands right behind a
finish. -/
inductive Anchored : List Fragment → List Anchor → Prop
  | nil : Anchored [] []
  | point (span : Span) (anchor : Anchor) {fragments : List Fragment} {anchors : List Anchor}
      (rest : Anchored fragments anchors) : Anchored (.point span :: fragments) (anchor :: anchors)
  | element (span separator : Span) {fragments : List Fragment} {anchors : List Anchor}
      (rest : Anchored fragments anchors) :
      Anchored (.point span :: .separator separator :: fragments) (.finish :: anchors)

theorem Anchored.append {front back : List Fragment} {anchors more : List Anchor}
    (first : Anchored front anchors) (second : Anchored back more) :
    Anchored (front ++ back) (anchors ++ more) := by
  induction first with
  | nil => exact second
  | point span anchor _ ih => exact .point span anchor ih
  | element span separator _ ih => exact .element span separator ih

/-- The anchors of a tree in front of its finish. -/
def innerAnchors (registry : Registry) : Positional → List Anchor
  | .node kind _ slots => .start :: walkAnchorsSlots registry (registry.anchorsOf kind) slots

theorem walkAnchors_eq_inner (registry : Registry) (tree : Positional) :
    tree.walkAnchors registry = innerAnchors registry tree ++ [.finish] := by
  obtain ⟨kind, span, slots⟩ := tree
  rw [walkAnchors, innerAnchors, List.cons_append]

section Trees

variable {registry : Registry}

mutual
theorem anchored_inner : ∀ tree : Positional, Decorate.Kinded registry tree.preorder →
    Anchored (innerFragments tree) (innerAnchors registry tree)
  | .node kind span slots, kinded => by
      rw [SlotTree.preorder] at kinded
      obtain ⟨here, below⟩ := List.forall_mem_cons.mp kinded
      have lengths := Decorate.length_of_kindFault? here
      rw [innerFragments, innerAnchors]
      exact .point _ _ (anchored_slots _ slots (Nat.le_of_eq lengths.symm) below)

theorem anchored_slots : ∀ (shapes : List AnchorShape) (slots : List PositionalSlot),
    slots.length ≤ shapes.length → Decorate.Kinded registry (SlotTree.preorderSlots slots) →
    Anchored (fragmentsSlots slots) (walkAnchorsSlots registry shapes slots)
  | _, [], _, _ => by
      rw [fragmentsSlots, walkAnchorsSlots]
      exact .nil
  | [], slot :: slots, enough, _ => by simp at enough
  | shape :: shapes, .token token :: slots, enough, kinded => by
      have rest := anchored_slots shapes slots (by simpa using enough) kinded
      cases token with
      | none => simpa [fragmentsSlots, walkAnchorsSlots, walkAnchorsSlot] using rest
      | some lexeme =>
        rw [fragmentsSlots, walkAnchorsSlots, walkAnchorsSlot]
        exact .point _ _ rest
  | shape :: shapes, .child none :: slots, enough, kinded => by
      have rest := anchored_slots shapes slots (by simpa using enough) kinded
      simpa [fragmentsSlots, walkAnchorsSlots, walkAnchorsSlot] using rest
  | shape :: shapes, .child (some child) :: slots, enough, kinded => by
      obtain ⟨first, below⟩ := List.forall_mem_append.mp kinded
      have rest := anchored_slots shapes slots (by simpa using enough) below
      rw [fragmentsSlots, walkAnchorsSlots, walkAnchorsSlot, fragments_eq_inner,
        walkAnchors_eq_inner, List.append_assoc _ [shape.anchor]]
      exact ((anchored_inner child first).append (.point _ _ .nil)).append (.point _ _ rest)
  | shape :: shapes, .list elements separators :: slots, enough, kinded => by
      obtain ⟨first, below⟩ := List.forall_mem_append.mp kinded
      have rest := anchored_slots shapes slots (by simpa using enough) below
      rw [fragmentsSlots, walkAnchorsSlots, walkAnchorsSlot]
      exact (anchored_elements separators elements first).append rest

theorem anchored_elements : ∀ (separators : List Span) (trees : List Positional),
    Decorate.Kinded registry (SlotTree.preorderElements trees) →
    Anchored (fragmentsElements separators trees) (walkAnchorsElements registry trees)
  | _, [], _ => by
      rw [fragmentsElements, walkAnchorsElements]
      exact .nil
  | separators, tree :: trees, kinded => by
      obtain ⟨first, below⟩ := List.forall_mem_append.mp kinded
      have rest := anchored_elements (separators.drop 1) trees below
      rw [fragmentsElements, walkAnchorsElements, fragments_eq_inner, walkAnchors_eq_inner]
      cases separators with
      | nil =>
        rw [show (([] : List Span).head?.map Fragment.separator).toList = [] from rfl,
          List.append_nil]
        exact ((anchored_inner tree first).append (.point _ _ .nil)).append rest
      | cons separator separators =>
        rw [List.append_assoc (innerFragments tree)]
        exact ((anchored_inner tree first).append (.element _ separator .nil)).append rest
end

/-- Every separator of a tree stands right behind the finish of an element. -/
theorem anchored_fragments {tree : Positional} (kinded : Decorate.Kinded registry tree.preorder) :
    Anchored tree.fragments (tree.walkAnchors registry) := by
  rw [fragments_eq_inner, walkAnchors_eq_inner]
  exact (anchored_inner tree kinded).append (.point _ _ .nil)

/-- Decorating a tree keeps the anchors of its points. -/
theorem walkAnchors_rebuild {tree : Positional} (kinded : Decorate.Kinded registry tree.preorder)
    (supply : List Decoration) :
    (Decorate.rebuild registry tree supply).1.walkAnchors registry = tree.walkAnchors registry := by
  have same := congrArg (walkAnchors registry) (Decorate.erase_rebuild tree supply kinded)
  rwa [Decorated.erase, Positional.erase, SlotTree.walkAnchors_map, SlotTree.walkAnchors_map] at same

end Trees

end GoTrivia

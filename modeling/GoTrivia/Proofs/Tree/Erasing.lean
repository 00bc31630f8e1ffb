import Mathlib.Data.List.Basic
import GoTrivia.Decorate.Basic

/-!
# Trees without what they carry

Whether a node fits its shape depends on its kind, on the texts of its tokens and on which
of its slots are filled, but on nothing else it carries.  So a tree can be checked after
everything else is forgotten, and decorating a tree changes nothing about it.
-/

set_option autoImplicit false

namespace GoTrivia

variable {ν τ σ ν' τ' σ' : Type}

namespace SlotTree

theorem preorderSlots_cons (slot : Slot ν τ σ) (slots : List (Slot ν τ σ)) :
    preorderSlots (slot :: slots) = preorderSlots [slot] ++ preorderSlots slots := by
  cases slot with
  | token content => simp [preorderSlots]
  | child content => cases content <;> simp [preorderSlots]
  | list elements separators => simp [preorderSlots]

variable (onNode : ν → ν') (onToken : τ → τ') (onList : σ → σ')

/-! ## Nodes of a mapped tree -/

/-- A slot with everything it carries replaced. -/
def mapSlot : Slot ν τ σ → Slot ν' τ' σ'
  | .token token => .token (token.map onToken)
  | .child child => .child (child.map (map onNode onToken onList))
  | .list elements separators =>
    .list (elements.map (map onNode onToken onList)) (onList separators)

theorem mapElements_eq_map (trees : List (SlotTree ν τ σ)) :
    mapElements onNode onToken onList trees = trees.map (map onNode onToken onList) := by
  induction trees with
  | nil => rfl
  | cons tree trees ih => rw [mapElements, ih, List.map_cons]

theorem mapSlots_eq_map (slots : List (Slot ν τ σ)) :
    mapSlots onNode onToken onList slots = slots.map (mapSlot onNode onToken onList) := by
  induction slots with
  | nil => rfl
  | cons slot slots ih =>
    cases slot with
    | token token => rw [mapSlots, ih]; rfl
    | child child => cases child <;> rw [mapSlots, ih] <;> rfl
    | list elements separators => rw [mapSlots, ih, mapElements_eq_map]; rfl

mutual
theorem preorder_map : ∀ tree : SlotTree ν τ σ,
    (tree.map onNode onToken onList).preorder = tree.preorder.map (map onNode onToken onList)
  | .node kind info slots => by
      rw [map, preorder, preorder, preorderSlots_map slots, List.map_cons, map]

theorem preorderSlots_map : ∀ slots : List (Slot ν τ σ),
    preorderSlots (mapSlots onNode onToken onList slots) =
      (preorderSlots slots).map (map onNode onToken onList)
  | [] => rfl
  | .token _ :: slots => by simpa [mapSlots, preorderSlots] using preorderSlots_map slots
  | .child none :: slots => by simpa [mapSlots, preorderSlots] using preorderSlots_map slots
  | .child (some child) :: slots => by
      simp [mapSlots, preorderSlots, preorder_map child, preorderSlots_map slots]
  | .list elements _ :: slots => by
      simp [mapSlots, preorderSlots, preorderElements_map elements, preorderSlots_map slots]

theorem preorderElements_map : ∀ trees : List (SlotTree ν τ σ),
    preorderElements (mapElements onNode onToken onList trees) =
      (preorderElements trees).map (map onNode onToken onList)
  | [] => rfl
  | tree :: trees => by
      simp [mapElements, preorderElements, preorder_map tree, preorderElements_map trees]
end

/-! ## Faults of a mapped tree -/

@[simp]
theorem isPresent_mapSlot (slot : Slot ν τ σ) :
    (mapSlot onNode onToken onList slot).isPresent = slot.isPresent := by
  cases slot <;> simp [mapSlot, Slot.isPresent]

@[simp]
theorem fits_mapSlot (shape : SlotShape) (slot : Slot ν τ σ) :
    (mapSlot onNode onToken onList slot).fits shape = slot.fits shape := by
  cases slot <;> cases shape <;> rfl

theorem contentFault?_mapSlot (shape : SlotShape) (slot : Slot ν String σ) :
    contentFault? shape (mapSlot onNode id onList slot) = contentFault? shape slot := by
  cases shape with
  | token text =>
    cases text with
    | fixed text =>
      cases slot with
      | token found => cases found <;> rfl
      | child | list => rfl
    | free => cases slot <;> rfl
  | child | list => cases slot <;> rfl

/-- Whether the slots of a node are of the right kinds does not depend on what it carries. -/
theorem kindFault?_map (registry : Registry) (tree : SlotTree ν τ σ) :
    kindFault? registry (tree.map onNode onToken onList) = kindFault? registry tree := by
  obtain ⟨kind, info, slots⟩ := tree
  simp only [map, mapSlots_eq_map, kindFault?, SlotTree.kind, countFault?, SlotTree.slots,
    List.length_map, List.zip_map_right, List.findSome?_map, Function.comp_def, Prod.map, id_eq,
    fits_mapSlot]
  cases registry.shape? kind <;> rfl

/-- What keeps a node from fitting does not depend on what it carries. -/
theorem fault?_map (registry : Registry) (tree : SlotTree ν String σ) :
    fault? registry (tree.map onNode id onList) = fault? registry tree := by
  obtain ⟨kind, info, slots⟩ := tree
  have present : ∀ shape, isPresentAt shape (.node kind (onNode info)
      (slots.map (mapSlot onNode id onList))) = isPresentAt shape (.node kind info slots) := by
    intro shape
    funext anchor
    unfold isPresentAt
    split
    · simp [SlotTree.slots, Option.any_map]
    · rfl
  simp only [map, mapSlots_eq_map, fault?, SlotTree.kind, countFault?, SlotTree.slots,
    List.length_map, List.zip_map_right, List.findSome?_map, Function.comp_def, Prod.map, id_eq,
    contentFault?_mapSlot, isPresent_mapSlot, present]
  cases registry.shape? kind <;> rfl

end SlotTree

/-! ## Decorating keeps the tree -/

namespace Decorate

variable {registry : Registry}

/-- The nodes of a tree have slots of the right kinds. -/
def Kinded (registry : Registry) (nodes : List Positional) : Prop :=
  ∀ node ∈ nodes, SlotTree.kindFault? registry node = none

theorem length_of_kindFault? {kind : NodeKind} {span : Span} {slots : List PositionalSlot}
    (fine : SlotTree.kindFault? registry (.node kind span slots : Positional) = none) :
    (registry.anchorsOf kind).length = slots.length := by
  unfold SlotTree.kindFault? at fine
  split at fine
  · cases fine
  · next shape known =>
    have counted := (Option.or_eq_none_iff.mp fine).1
    have known : registry.shape? kind = some shape := known
    simp only [Registry.anchorsOf, known]
    by_contra other
    simp [SlotTree.countFault?, SlotTree.slots, other] at counted

mutual
/-- Building up a tree with decorations changes nothing else about it. -/
theorem erase_rebuild : ∀ (tree : Positional) (supply : List Decoration),
    Kinded registry tree.preorder → (rebuild registry tree supply).1.erase = tree.erase
  | .node kind span slots, supply, kinded => by
      rw [SlotTree.preorder] at kinded
      obtain ⟨here, below⟩ := List.forall_mem_cons.mp kinded
      have lengths := length_of_kindFault? here
      simp only [rebuild, Decorated.erase, Positional.erase, SlotTree.map]
      congr 1
      exact erase_rebuildSlots _ slots _ _ (by omega) below

theorem erase_rebuildSlots : ∀ (shapes : List AnchorShape) (slots : List PositionalSlot)
    (decorations : Decorations) (supply : List Decoration), slots.length ≤ shapes.length →
    Kinded registry (SlotTree.preorderSlots slots) →
    SlotTree.mapSlots (fun _ => ()) id id (rebuildSlots registry shapes slots decorations supply).1 =
      SlotTree.mapSlots (fun _ => ()) Lexeme.text (fun _ => ()) slots
  | _, [], _, _, _, _ => by
      unfold rebuildSlots
      rfl
  | [], slot :: slots, _, _, enough, _ => by simp at enough
  | shape :: shapes, .token token :: slots, decorations, supply, enough, kinded => by
      have rest := fun decorations supply => erase_rebuildSlots shapes slots decorations supply
        (by simpa using enough) kinded
      cases token <;> simp [rebuildSlots, rebuildSlot, SlotTree.mapSlots, rest]
  | shape :: shapes, .child none :: slots, decorations, supply, enough, kinded => by
      have rest := erase_rebuildSlots shapes slots decorations supply (by simpa using enough) kinded
      simp [rebuildSlots, rebuildSlot, SlotTree.mapSlots, rest]
  | shape :: shapes, .child (some child) :: slots, decorations, supply, enough, kinded => by
      obtain ⟨first, below⟩ := List.forall_mem_append.mp kinded
      have here := erase_rebuild child supply first
      have rest := fun decorations supply => erase_rebuildSlots shapes slots decorations supply
        (by simpa using enough) below
      simp only [Decorated.erase, Positional.erase] at here
      simp [rebuildSlots, rebuildSlot, SlotTree.mapSlots, rest, here]
  | shape :: shapes, .list elements _ :: slots, decorations, supply, enough, kinded => by
      obtain ⟨first, below⟩ := List.forall_mem_append.mp kinded
      have here := erase_rebuildElements elements supply first
      have rest := fun decorations supply => erase_rebuildSlots shapes slots decorations supply
        (by simpa using enough) below
      simp [rebuildSlots, rebuildSlot, SlotTree.mapSlots, rest, here]

theorem erase_rebuildElements : ∀ (trees : List Positional) (supply : List Decoration),
    Kinded registry (SlotTree.preorderElements trees) →
    SlotTree.mapElements (fun _ => ()) id id (rebuildElements registry trees supply).1 =
      SlotTree.mapElements (fun _ => ()) Lexeme.text (fun _ => ()) trees
  | [], supply, _ => by
      unfold rebuildElements
      rfl
  | tree :: trees, supply, kinded => by
      rw [SlotTree.preorderElements] at kinded
      obtain ⟨first, rest⟩ := List.forall_mem_append.mp kinded
      have here := erase_rebuild tree supply first
      simp only [Decorated.erase, Positional.erase] at here
      simp only [rebuildElements, SlotTree.mapElements, here]
      exact congrArg _ (erase_rebuildElements trees _ rest)
end

end Decorate

end GoTrivia

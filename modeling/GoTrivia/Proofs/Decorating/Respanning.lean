import GoTrivia.Proofs.Tree.Erasing

/-!
# Nodes put elsewhere

Where a resolver puts the nodes of a tree shows in the fragments of the tree and in nothing
else: the nodes keep their kinds, slots and order, and the tree is built up the same.  So
decorating a tree with its nodes found by a resolver is decorating the tree they were moved in.
-/

set_option autoImplicit false

namespace GoTrivia

open Positional (respan respanSlots respanElements)

/-! ## Moved trees -/

namespace Positional

mutual
/-- Nodes found where they stand are not moved. -/
theorem respan_span : ∀ tree : Positional, tree.respan span = tree
  | .node kind info slots => by
      rw [respan, respanSlots_span slots]
      rfl

theorem respanSlots_span : ∀ slots : List PositionalSlot, respanSlots span slots = slots
  | [] => by rw [respanSlots]
  | .token _ :: slots => by rw [respanSlots, respanSlots_span slots]
  | .child none :: slots => by rw [respanSlots, respanSlots_span slots]
  | .child (some child) :: slots => by
      rw [respanSlots, respan_span child, respanSlots_span slots]
  | .list elements _ :: slots => by
      rw [respanSlots, respanElements_span elements, respanSlots_span slots]

theorem respanElements_span : ∀ trees : List Positional, respanElements span trees = trees
  | [] => by rw [respanElements]
  | tree :: trees => by rw [respanElements, respan_span tree, respanElements_span trees]
end

variable (resolve : Positional → Span)

mutual
/-- Moving nodes changes nothing about a tree but where they stand. -/
theorem erase_respan : ∀ tree : Positional, (tree.respan resolve).erase = tree.erase
  | .node kind info slots => by
      rw [respan, erase, erase, SlotTree.map, SlotTree.map, mapSlots_respanSlots slots]

theorem mapSlots_respanSlots : ∀ slots : List PositionalSlot,
    SlotTree.mapSlots (fun _ => ()) Lexeme.text (fun _ => ()) (respanSlots resolve slots) =
      SlotTree.mapSlots (fun _ => ()) Lexeme.text (fun _ => ()) slots
  | [] => by rw [respanSlots]
  | .token _ :: slots => by simp [respanSlots, SlotTree.mapSlots, mapSlots_respanSlots slots]
  | .child none :: slots => by simp [respanSlots, SlotTree.mapSlots, mapSlots_respanSlots slots]
  | .child (some child) :: slots => by
      have here := erase_respan child
      simp only [erase] at here
      simp [respanSlots, SlotTree.mapSlots, here, mapSlots_respanSlots slots]
  | .list elements _ :: slots => by
      simp [respanSlots, SlotTree.mapSlots, mapElements_respanElements elements,
        mapSlots_respanSlots slots]

theorem mapElements_respanElements : ∀ trees : List Positional,
    SlotTree.mapElements (fun _ => ()) Lexeme.text (fun _ => ()) (respanElements resolve trees) =
      SlotTree.mapElements (fun _ => ()) Lexeme.text (fun _ => ()) trees
  | [] => by rw [respanElements]
  | tree :: trees => by
      have here := erase_respan tree
      simp only [erase] at here
      simp [respanElements, SlotTree.mapElements, here, mapElements_respanElements trees]
end

/-- The first node that does not pass is the same wherever nodes stand. -/
theorem findSome?_kindFault?_respan (registry : Registry) (tree : Positional) :
    (tree.respan resolve).preorder.findSome? (SlotTree.kindFault? registry) =
      tree.preorder.findSome? (SlotTree.kindFault? registry) := by
  have erased : ∀ tree : Positional, tree.preorder.findSome? (SlotTree.kindFault? registry) =
      tree.erase.preorder.findSome? (SlotTree.kindFault? registry) := by
    intro tree
    rw [erase, SlotTree.preorder_map, List.findSome?_map]
    congr 1
    exact funext fun node => (SlotTree.kindFault?_map _ _ _ registry node).symm
  rw [erased, erase_respan, ← erased]

theorem kinded_respan {registry : Registry} {resolve : Positional → Span} {tree : Positional} :
    Decorate.Kinded registry (tree.respan resolve).preorder ↔
      Decorate.Kinded registry tree.preorder := by
  rw [Decorate.Kinded, ← List.findSome?_eq_none_iff, findSome?_kindFault?_respan,
    List.findSome?_eq_none_iff]
  rfl

end Positional

/-! ## Building up -/

namespace Decorate

variable (registry : Registry) (resolve : Positional → Span)

mutual
/-- Building up a tree does not ask where its nodes stand. -/
theorem rebuild_respan : ∀ (tree : Positional) (supply : List Decoration),
    rebuild registry (tree.respan resolve) supply = rebuild registry tree supply
  | .node kind span slots, supply => by
      rw [respan, rebuild, rebuild]
      simp only [rebuildSlots_respan _ slots]

theorem rebuildSlots_respan : ∀ (shapes : List AnchorShape) (slots : List PositionalSlot)
    (decorations : Decorations) (supply : List Decoration),
    rebuildSlots registry shapes (respanSlots resolve slots) decorations supply =
      rebuildSlots registry shapes slots decorations supply
  | _, [], _, _ => by rw [respanSlots]
  | [], slot :: slots, _, _ => by
      rcases slot with _ | (_ | _) | _ <;> simp only [respanSlots, rebuildSlots]
  | shape :: shapes, .token _ :: slots, _, _ => by
      simp only [respanSlots, rebuildSlots, rebuildSlots_respan shapes slots]
  | shape :: shapes, .child none :: slots, _, _ => by
      simp only [respanSlots, rebuildSlots, rebuildSlots_respan shapes slots]
  | shape :: shapes, .child (some child) :: slots, _, _ => by
      simp only [respanSlots, rebuildSlots, rebuildSlot, rebuild_respan child,
        rebuildSlots_respan shapes slots]
  | shape :: shapes, .list elements _ :: slots, _, _ => by
      simp only [respanSlots, rebuildSlots, rebuildSlot, rebuildElements_respan elements,
        rebuildSlots_respan shapes slots]

theorem rebuildElements_respan : ∀ (trees : List Positional) (supply : List Decoration),
    rebuildElements registry (respanElements resolve trees) supply =
      rebuildElements registry trees supply
  | [], _ => by rw [respanElements]
  | tree :: trees, _ => by
      simp only [respanElements, rebuildElements, rebuild_respan tree,
        rebuildElements_respan trees]
end

end Decorate

/-! ## Decorating -/

/-- The resolver that places offsets the same and finds nodes where they stand. -/
def LineResolver.plain (resolver : LineResolver) : LineResolver := { lineOf? := resolver.lineOf? }

namespace CommentGap

variable (resolver : LineResolver)

theorem group_plain (line : Option Nat) (groups : List TriviaGroup) (comments : List Lexeme) :
    group resolver.plain line groups comments = group resolver line groups comments := by
  induction comments generalizing line groups with
  | nil => rfl
  | cons comment comments ih =>
    simp only [group, ih]
    rfl

theorem assign_plain (gap : CommentGap) : gap.assign resolver.plain = gap.assign resolver := by
  simp only [assign, group_plain]
  rfl

/-- Comments are assigned without asking where nodes are. -/
theorem assignAll_plain (gaps : List CommentGap) :
    assignAll resolver.plain gaps = assignAll resolver gaps := by
  induction gaps with
  | nil => rfl
  | cons gap gaps ih => simp only [assignAll, assign_plain, ih]

end CommentGap

/-- A resolver that finds nodes where they stand moves nothing. -/
theorem SourceTree.resolved_of_eq {source : SourceTree} {resolver : LineResolver}
    (stands : resolver.resolve = Positional.span) : source.resolved resolver = source.root := by
  rw [SourceTree.resolved, stands, Positional.respan_span]

/-- **Resolving.** Decorating a tree with its nodes found by a resolver is decorating the tree
they were moved in where they stand. -/
theorem decorate_eq_resolved (source : SourceTree) (registry : Registry) (resolver : LineResolver) :
    source.decorate registry resolver =
      SourceTree.decorate { source with root := source.resolved resolver } registry
        resolver.plain := by
  have same : ({ source with root := source.resolved resolver } : SourceTree).resolved
      resolver.plain = source.resolved resolver :=
    SourceTree.resolved_of_eq rfl
  unfold SourceTree.decorate
  rw [same]
  simp only [SourceTree.resolved, Positional.findSome?_kindFault?_respan, Decorate.rebuild_respan,
    CommentGap.assignAll_plain]

end GoTrivia

import Mathlib.Data.List.Forall2
import GoTrivia.Proofs.Decorating.Points
import GoTrivia.Tree.Path

/-!
# Parts of a decorated tree replaced

A decorated tree looks like the tree it was built from: it has the same slots with the same
tokens (`Twin`).  So each path leads to subtrees that correspond, and in front of these and
behind them stand as many points in the one tree as in the other.

**Frames.** Whatever is put in the place of a subtree or of a list of elements, the points
around it stay as they are (`Framed`).  Frames inside frames are frames, which makes a path as
easy as a step.
-/

set_option autoImplicit false

namespace GoTrivia

/-! ## Paths -/

namespace SlotTree

variable {ν τ σ : Type} {tree : SlotTree ν τ σ}

theorem self_mem_preorder (tree : SlotTree ν τ σ) : tree ∈ tree.preorder := by
  cases tree
  simp [preorder]

theorem preorder_subset_of_mem {trees : List (SlotTree ν τ σ)} (mem : tree ∈ trees) :
    tree.preorder ⊆ preorderElements trees := by
  induction trees with
  | nil => simp at mem
  | cons other trees ih =>
    rw [preorderElements]
    rcases List.mem_cons.mp mem with rfl | mem
    · exact List.subset_append_left _ _
    · exact List.subset_append_of_subset_right _ (ih mem)

theorem preorderSlots_subset_of_mem {slot : Slot ν τ σ} {slots : List (Slot ν τ σ)}
    (mem : slot ∈ slots) : preorderSlots [slot] ⊆ preorderSlots slots := by
  induction slots with
  | nil => simp at mem
  | cons other slots ih =>
    rw [preorderSlots_cons other]
    rcases List.mem_cons.mp mem with rfl | mem
    · exact List.subset_append_left _ _
    · exact List.subset_append_of_subset_right _ (ih mem)

mutual
/-- What is below a node of a tree is below the tree. -/
theorem preorder_subset_of_mem_preorder {node : SlotTree ν τ σ} : ∀ tree : SlotTree ν τ σ,
    node ∈ tree.preorder → node.preorder ⊆ tree.preorder
  | .node kind info slots, mem => by
      rw [preorder] at mem
      rcases List.mem_cons.mp mem with rfl | below
      · exact List.Subset.refl _
      · rw [preorder]
        exact List.subset_cons_of_subset _ (preorder_subset_of_mem_preorderSlots slots below)

theorem preorder_subset_of_mem_preorderSlots {node : SlotTree ν τ σ} :
    ∀ slots : List (Slot ν τ σ), node ∈ preorderSlots slots → node.preorder ⊆ preorderSlots slots
  | [], mem => absurd mem List.not_mem_nil
  | .token _ :: slots, mem => by
      rw [preorderSlots] at mem ⊢
      exact preorder_subset_of_mem_preorderSlots slots mem
  | .child none :: slots, mem => by
      rw [preorderSlots] at mem ⊢
      exact preorder_subset_of_mem_preorderSlots slots mem
  | .child (some child) :: slots, mem => by
      rw [preorderSlots] at mem ⊢
      rcases List.mem_append.mp mem with inside | behind
      · exact List.subset_append_of_subset_left _ (preorder_subset_of_mem_preorder child inside)
      · exact List.subset_append_of_subset_right _
          (preorder_subset_of_mem_preorderSlots slots behind)
  | .list elements _ :: slots, mem => by
      rw [preorderSlots] at mem ⊢
      rcases List.mem_append.mp mem with inside | behind
      · exact List.subset_append_of_subset_left _
          (preorder_subset_of_mem_preorderElements elements inside)
      · exact List.subset_append_of_subset_right _
          (preorder_subset_of_mem_preorderSlots slots behind)

theorem preorder_subset_of_mem_preorderElements {node : SlotTree ν τ σ} :
    ∀ trees : List (SlotTree ν τ σ), node ∈ preorderElements trees →
      node.preorder ⊆ preorderElements trees
  | [], mem => absurd mem List.not_mem_nil
  | tree :: trees, mem => by
      rw [preorderElements] at mem ⊢
      rcases List.mem_append.mp mem with inside | behind
      · exact List.subset_append_of_subset_left _ (preorder_subset_of_mem_preorder tree inside)
      · exact List.subset_append_of_subset_right _
          (preorder_subset_of_mem_preorderElements trees behind)
end

theorem preorderSlots_subset_of_slot? {anchor : Anchor} {slot : Slot ν τ σ}
    (found : tree.slot? anchor = some slot) : preorderSlots [slot] ⊆ tree.preorder := by
  obtain ⟨kind, info, slots⟩ := tree
  obtain ⟨index, -, found⟩ := Option.bind_eq_some_iff.mp found
  rw [preorder]
  exact List.subset_cons_of_subset _ (preorderSlots_subset_of_mem (List.mem_of_getElem? found))

theorem preorder_subset_of_step? {step : PathStep} {subtree : SlotTree ν τ σ}
    (found : tree.step? step = some subtree) : subtree.preorder ⊆ tree.preorder := by
  cases step with
  | child anchor =>
    cases slot : tree.slot? anchor with
    | none => simp [step?, child?, slot] at found
    | some content =>
      cases content with
      | token | list => simp [step?, child?, slot] at found
      | child content =>
        obtain rfl : content = some subtree := by simpa [step?, child?, slot] using found
        simpa [preorderSlots] using preorderSlots_subset_of_slot? slot
  | element anchor index =>
    cases slot : tree.slot? anchor with
    | none => simp [step?, elements, elements?, slot] at found
    | some content =>
      cases content with
      | token | child => simp [step?, elements, elements?, slot] at found
      | list content separators =>
        have found : content[index]? = some subtree := by
          simpa [step?, elements, elements?, slot] using found
        have inside : preorderElements content ⊆ tree.preorder := by
          simpa [preorderSlots] using preorderSlots_subset_of_slot? slot
        exact List.Subset.trans (preorder_subset_of_mem (List.mem_of_getElem? found)) inside

/-- Paths lead to subtrees. -/
theorem mem_preorder_of_follow {path : Path} {subtree : SlotTree ν τ σ}
    (found : tree.follow path = .ok subtree) : subtree ∈ tree.preorder := by
  induction path generalizing tree with
  | nil =>
    obtain rfl := Except.ok.inj found
    cases tree
    simp [preorder]
  | cons step path ih =>
    rw [follow] at found
    cases here : tree.step? step with
    | none => simp [here] at found
    | some below =>
      rw [here] at found
      exact preorder_subset_of_step? here (ih found)

theorem setSlot_eq_self {anchor : Anchor} {slot : Slot ν τ σ} (found : tree.slot? anchor = some slot) :
    tree.setSlot anchor slot = tree := by
  obtain ⟨kind, info, slots⟩ := tree
  obtain ⟨index, isIndex, found⟩ := Option.bind_eq_some_iff.mp found
  obtain ⟨bound, rfl⟩ := List.getElem?_eq_some_iff.mp found
  simp only [setSlot, isIndex, withSlots, List.set_getElem_self]
  rfl

theorem putStep_eq_self {step : PathStep} {subtree : SlotTree ν τ σ}
    (found : tree.step? step = some subtree) : tree.putStep step subtree = tree := by
  cases step with
  | child anchor =>
    cases slot : tree.slot? anchor with
    | none => simp [putStep, PathStep.anchor, slot]
    | some content =>
      cases content with
      | token | list => simp [putStep, PathStep.anchor, slot]
      | child content =>
        obtain rfl : content = some subtree := by simpa [step?, child?, slot] using found
        simpa [putStep, PathStep.anchor, slot] using setSlot_eq_self slot
  | element anchor index =>
    cases slot : tree.slot? anchor with
    | none => simp [putStep, PathStep.anchor, slot]
    | some content =>
      cases content with
      | token | child => simp [putStep, PathStep.anchor, slot]
      | list content separators =>
        have found : content[index]? = some subtree := by
          simpa [step?, elements, elements?, slot] using found
        obtain ⟨bound, rfl⟩ := List.getElem?_eq_some_iff.mp found
        simpa [putStep, PathStep.anchor, slot] using setSlot_eq_self slot

/-- Putting back what was there changes nothing. -/
theorem put_eq_self {path : Path} {subtree : SlotTree ν τ σ}
    (found : tree.follow path = .ok subtree) : tree.put path subtree = tree := by
  induction path generalizing tree with
  | nil => exact (Except.ok.inj found).symm
  | cons step path ih =>
    rw [follow] at found
    cases here : tree.step? step with
    | none => simp [here] at found
    | some below =>
      rw [here] at found
      simp only [put, here, ih found]
      exact putStep_eq_self here

end SlotTree

open Decorated Positional
open Decorate (Kinded)

/-! ## Trees that look the same -/

/-- A decorated tree that looks like a positional one. -/
structure Twin (tree : Positional) (decorated : Decorated) : Prop where
  same : decorated.erase = tree.erase
  kinded : Kinded .standard tree.preorder

/-- A slot without spans and texts of separators. -/
abbrev erasePositional : PositionalSlot → Slot Unit String Unit :=
  SlotTree.mapSlot (fun _ => ()) Lexeme.text (fun _ => ())

/-- A slot without decorations. -/
abbrev eraseDecorated : DecoratedSlot → Slot Unit String Unit :=
  SlotTree.mapSlot (fun _ => ()) id id

/-- A slot of a decorated tree that looks like one of a positional tree. -/
structure TwinSlot (slot : PositionalSlot) (decorated : DecoratedSlot) : Prop where
  same : eraseDecorated decorated = erasePositional slot
  kinded : Kinded .standard (SlotTree.preorderSlots [slot])

/-- Trees that look the same have slots that look the same. -/
theorem Twin.slots {kind : NodeKind} {span : Span} {slots : List PositionalSlot}
    {decorated : Decorated} (twin : Twin (.node kind span slots) decorated) :
    ∃ decorations slots', decorated = .node kind decorations slots' ∧
      slots.length = (standardShape kind).anchors.length ∧ List.Forall₂ TwinSlot slots slots' := by
  obtain ⟨kind', decorations, slots'⟩ := decorated
  have same := twin.same
  have kinded := twin.kinded
  rw [SlotTree.preorder] at kinded
  obtain ⟨here, below⟩ := List.forall_mem_cons.mp kinded
  simp only [Decorated.erase, Positional.erase, SlotTree.map, SlotTree.mapSlots_eq_map,
    SlotTree.node.injEq, true_and] at same
  obtain ⟨rfl, same⟩ := same
  refine ⟨decorations, slots', rfl, (Decorate.length_of_kindFault? here).symm, ?_⟩
  clear here twin kinded
  induction slots generalizing slots' with
  | nil =>
    obtain rfl : slots' = [] := by simpa using same
    exact .nil
  | cons slot slots ih =>
    cases slots' with
    | nil => simp at same
    | cons slot' slots' =>
      rw [SlotTree.preorderSlots_cons] at below
      obtain ⟨here, below⟩ := List.forall_mem_append.mp below
      rw [List.map_cons, List.map_cons, List.cons.injEq] at same
      exact .cons ⟨same.1, here⟩ (ih slots' below same.2)

namespace TwinSlot

theorem token {content : Option Lexeme} {slot : DecoratedSlot}
    (twin : TwinSlot (.token content) slot) : slot = .token (content.map Lexeme.text) := by
  have same := twin.same
  cases slot <;> simp [SlotTree.mapSlot] at same
  rw [same]

theorem vacant {slot : DecoratedSlot} (twin : TwinSlot (.child none) slot) :
    slot = .child none := by
  have same := twin.same
  cases slot <;> simp [SlotTree.mapSlot] at same
  rw [same]

theorem child {tree : Positional} {slot : DecoratedSlot}
    (twin : TwinSlot (.child (some tree)) slot) :
    ∃ decorated, slot = .child (some decorated) ∧ Twin tree decorated := by
  have same := twin.same
  have kinded := twin.kinded
  cases slot with
  | child content =>
    cases content with
    | none => simp [SlotTree.mapSlot] at same
    | some decorated =>
      simp only [SlotTree.mapSlot, Option.map_some, Slot.child.injEq, Option.some.injEq] at same
      exact ⟨decorated, rfl, same, by simpa [SlotTree.preorderSlots] using kinded⟩
  | token | list => simp [SlotTree.mapSlot] at same

theorem list {elements : List Positional} {separators : List Span} {slot : DecoratedSlot}
    (twin : TwinSlot (.list elements separators) slot) :
    ∃ decorated, slot = .list decorated () ∧ List.Forall₂ Twin elements decorated := by
  have same := twin.same
  have kinded := twin.kinded
  cases slot with
  | list elements' separators' =>
    simp only [SlotTree.mapSlot, Slot.list.injEq] at same
    refine ⟨elements', rfl, ?_⟩
    obtain ⟨same, -⟩ := same
    simp only [SlotTree.preorderSlots, List.append_nil] at kinded
    clear twin
    induction elements generalizing elements' with
    | nil =>
      obtain rfl : elements' = [] := by simpa using same
      exact .nil
    | cons tree trees ih =>
      cases elements' with
      | nil => simp at same
      | cons tree' trees' =>
        obtain ⟨here, below⟩ := List.forall_mem_append.mp kinded
        rw [List.map_cons, List.map_cons, List.cons.injEq] at same
        exact .cons ⟨same.1, here⟩ (ih trees' same.2 below)
  | token | child => simp [SlotTree.mapSlot] at same

end TwinSlot

/-! ## As many points -/

mutual
/-- Trees that look the same have the same number of points. -/
theorem length_points : ∀ (tree : Positional) {decorated : Decorated}, Twin tree decorated →
    (decorated.points .standard).length = (pointFragments tree.fragments).length
  | .node kind span slots, decorated, twin => by
      obtain ⟨decorations, slots', rfl, lengths, twins⟩ := twin.slots
      have inside := length_pointsSlots decorations (standardShape kind).anchors slots
        (Nat.le_of_eq lengths) twins
      rw [points, fragments]
      simp only [pointFragments_cons_point, pointFragments_append, List.length_cons,
        List.length_append, pointFragments_nil, List.length_nil]
      exact congrArg (· + 1 + 1) inside

theorem length_pointsSlots (decorations : Decorations) :
    ∀ (shapes : List AnchorShape) (slots : List PositionalSlot) {slots' : List DecoratedSlot},
      slots.length ≤ shapes.length → List.Forall₂ TwinSlot slots slots' →
      (pointsSlots .standard decorations shapes slots').length =
        (pointFragments (fragmentsSlots slots)).length
  | _, [], _, _, twins => by
      cases twins
      rw [pointsSlots, fragmentsSlots]
      rfl
  | [], _ :: _, _, enough, _ => by simp at enough
  | shape :: shapes, .token content :: slots, _, enough, twins => by
      obtain ⟨slot', slots', twin, later, rfl⟩ := List.forall₂_cons_left_iff.mp twins
      have rest := length_pointsSlots decorations shapes slots (by simpa using enough) later
      rw [twin.token, pointsSlots]
      cases content <;> simp [pointsSlot, fragmentsSlots, rest]
  | shape :: shapes, .child none :: slots, _, enough, twins => by
      obtain ⟨slot', slots', twin, later, rfl⟩ := List.forall₂_cons_left_iff.mp twins
      have rest := length_pointsSlots decorations shapes slots (by simpa using enough) later
      rw [twin.vacant, pointsSlots]
      simpa [pointsSlot, fragmentsSlots] using rest
  | shape :: shapes, .child (some child) :: slots, _, enough, twins => by
      obtain ⟨slot', slots', twin, later, rfl⟩ := List.forall₂_cons_left_iff.mp twins
      have rest := length_pointsSlots decorations shapes slots (by simpa using enough) later
      obtain ⟨decorated, rfl, below⟩ := twin.child
      have inside := length_points child below
      rw [pointsSlots, pointsSlot]
      simp only [fragmentsSlots, pointFragments_append, pointFragments_cons_point, List.length_append,
        List.length_cons, List.length_nil, rest, inside]
      omega
  | shape :: shapes, .list elements separators :: slots, _, enough, twins => by
      obtain ⟨slot', slots', twin, later, rfl⟩ := List.forall₂_cons_left_iff.mp twins
      have rest := length_pointsSlots decorations shapes slots (by simpa using enough) later
      obtain ⟨decorated, rfl, below⟩ := twin.list
      have inside := length_pointsElements separators elements below
      rw [pointsSlots, pointsSlot]
      simp [fragmentsSlots, rest, inside]

theorem length_pointsElements : ∀ (separators : List Span) (trees : List Positional)
    {trees' : List Decorated}, List.Forall₂ Twin trees trees' →
    (pointsElements .standard trees').length =
      (pointFragments (fragmentsElements separators trees)).length
  | _, [], _, twins => by
      cases twins
      rw [pointsElements, fragmentsElements]
      rfl
  | separators, tree :: trees, _, twins => by
      obtain ⟨tree', trees', twin, later, rfl⟩ := List.forall₂_cons_left_iff.mp twins
      have here := length_points tree twin
      have rest := length_pointsElements (separators.drop 1) trees later
      rw [pointsElements, fragmentsElements]
      simp [here, rest]
end

theorem length_pointsSlot (decorations : Decorations) (shape : AnchorShape) {slot : PositionalSlot}
    {slot' : DecoratedSlot} (twin : TwinSlot slot slot') :
    (pointsSlot .standard decorations shape.anchor slot').length =
      (pointFragments (fragmentsSlots [slot])).length := by
  have one := length_pointsSlots decorations [shape] [slot] (Nat.le_refl 1) (.cons twin .nil)
  simpa [pointsSlots] using one

/-! ## Frames -/

/-- Points that stand for a part of some fragments between other ones: those for what is in
front of the part and behind it are as many as the fragments want and do not depend on it. -/
def Framed {α : Type} (front back : List Fragment) (points inner : α → List Decoration) : Prop :=
  ∃ before after, before.length = (pointFragments front).length ∧
    after.length = (pointFragments back).length ∧
    ∀ content, points content = before ++ inner content ++ after

namespace Framed

variable {α β : Type} {front back front' back' : List Fragment}
  {points inner : α → List Decoration} {outer between : β → List Decoration}

theorem refl (points : α → List Decoration) : Framed [] [] points points :=
  ⟨[], [], rfl, rfl, by simp⟩

/-- A frame inside another one. -/
theorem trans (first : Framed front back outer between) (put : α → β)
    (second : Framed front' back' (fun content => between (put content)) inner) :
    Framed (front ++ front') (back' ++ back) (fun content => outer (put content)) inner := by
  obtain ⟨before, after, lengths, lengths', around⟩ := first
  obtain ⟨before', after', inside, inside', around'⟩ := second
  refine ⟨before ++ before', after' ++ after, ?_, ?_, fun content => ?_⟩
  · simp [lengths, inside]
  · simp [lengths', inside']
  · have inside : between (put content) = _ := around' content
    show outer (put content) = _
    rw [around, inside]
    simp

end Framed

section Slots

theorem fragmentsSlots_append (front back : List PositionalSlot) :
    fragmentsSlots (front ++ back) = fragmentsSlots front ++ fragmentsSlots back := by
  induction front with
  | nil => rfl
  | cons slot front ih =>
    rw [List.cons_append, fragmentsSlots_cons, fragmentsSlots_cons slot front, ih,
      List.append_assoc]

variable {decorations : Decorations}

theorem pointsSlots_append (front back : List DecoratedSlot) :
    ∀ {shapes : List AnchorShape}, front.length ≤ shapes.length →
      pointsSlots .standard decorations shapes (front ++ back) =
        pointsSlots .standard decorations shapes front ++
          pointsSlots .standard decorations (shapes.drop front.length) back := by
  induction front with
  | nil => exact fun _ => by simp [pointsSlots]
  | cons slot front ih =>
    intro shapes enough
    cases shapes with
    | nil => simp at enough
    | cons shape shapes =>
      rw [List.cons_append, pointsSlots, ih (by simpa using enough), pointsSlots]
      simp

/-- The fragments of a node in front of one of its slots. -/
def slotFront (tree : Positional) (index : Nat) : List Fragment :=
  .point (.point tree.info.start) :: fragmentsSlots (tree.slots.take index)

/-- The fragments of a node behind one of its slots. -/
def slotBack (tree : Positional) (index : Nat) : List Fragment :=
  fragmentsSlots (tree.slots.drop (index + 1)) ++ [.point (.point tree.info.stop)]

theorem fragments_eq_slot {tree : Positional} {index : Nat} {slot : PositionalSlot}
    (found : tree.slots[index]? = some slot) :
    tree.fragments = slotFront tree index ++ fragmentsSlots [slot] ++ slotBack tree index := by
  obtain ⟨kind, span, slots⟩ := tree
  obtain ⟨bound, here⟩ := List.getElem?_eq_some_iff.mp found
  have split : slots = slots.take index ++ slot :: slots.drop (index + 1) := by
    rw [← here]
    exact (List.take_append_drop index slots).symm.trans
      (congrArg (slots.take index ++ ·) (List.drop_eq_getElem_cons bound))
  rw [fragments]
  conv_lhs => rw [split]
  rw [fragmentsSlots_append, fragmentsSlots_cons slot]
  simp [slotFront, slotBack, SlotTree.info, SlotTree.slots]

/-- One slot of a node, whatever it holds. -/
theorem framed_slot {kind : NodeKind} (span : Span) {slots : List PositionalSlot}
    (decorations : Decorations) {slots' : List DecoratedSlot}
    (twins : List.Forall₂ TwinSlot slots slots')
    (lengths : slots.length = (standardShape kind).anchors.length) {index : Nat}
    {shape : AnchorShape} (shaped : (standardShape kind).anchors[index]? = some shape) :
    Framed (slotFront (.node kind span slots) index) (slotBack (.node kind span slots) index)
      (fun slot' => points .standard (.node kind decorations (slots'.set index slot')))
      (pointsSlot .standard decorations shape.anchor) := by
  obtain ⟨bound, shaped⟩ := List.getElem?_eq_some_iff.mp shaped
  have same := twins.length_eq
  have front := List.forall₂_take index twins
  have back := List.forall₂_drop (index + 1) twins
  have shapeSplit : (standardShape kind).anchors.drop index =
      shape :: (standardShape kind).anchors.drop (index + 1) := by
    rw [← shaped]
    exact List.drop_eq_getElem_cons bound
  have frontLength : (slots'.take index).length = index := by
    rw [List.length_take]
    omega
  refine ⟨decorations.ofAnchor .start ::
      pointsSlots .standard decorations (standardShape kind).anchors (slots'.take index),
    pointsSlots .standard decorations ((standardShape kind).anchors.drop (index + 1))
      (slots'.drop (index + 1)) ++ [decorations.ofAnchor .finish], ?_, ?_, ?_⟩
  · have := length_pointsSlots decorations (standardShape kind).anchors (slots.take index)
      (by rw [List.length_take]; omega) front
    simpa [slotFront, SlotTree.slots] using this
  · have := length_pointsSlots decorations ((standardShape kind).anchors.drop (index + 1))
      (slots.drop (index + 1)) (by simp; omega) back
    simpa [slotBack, SlotTree.slots] using this
  · intro slot'
    have split : slots'.set index slot' = slots'.take index ++ slot' :: slots'.drop (index + 1) :=
      List.set_eq_take_append_cons_drop.trans (if_pos (by omega))
    have anchors : Registry.standard.anchorsOf kind = (standardShape kind).anchors := rfl
    show points .standard (.node kind decorations (slots'.set index slot')) = _
    rw [Decorated.points, split, anchors, pointsSlots_append _ _ (by omega), frontLength, shapeSplit,
      pointsSlots]
    simp

end Slots

section Elements

theorem fragmentsElements_append (front back : List Positional) :
    ∀ separators : List Span, fragmentsElements separators (front ++ back) =
      fragmentsElements separators front ++
        fragmentsElements (separators.drop front.length) back := by
  induction front with
  | nil => simp [fragmentsElements]
  | cons tree front ih =>
    intro separators
    rw [List.cons_append, fragmentsElements, fragmentsElements, ih]
    simp

theorem pointsElements_append (front back : List Decorated) :
    pointsElements .standard (front ++ back) =
      pointsElements .standard front ++ pointsElements .standard back := by
  induction front with
  | nil => simp [pointsElements]
  | cons tree front ih => simp [pointsElements, ih]

/-- The fragments of a list behind one of its elements. -/
def elementBack (separators : List Span) (elements : List Positional) (index : Nat) :
    List Fragment :=
  ((separators.drop index).head?.map Fragment.separator).toList ++
    fragmentsElements (separators.drop (index + 1)) (elements.drop (index + 1))

variable {elements : List Positional} {elements' : List Decorated} {index : Nat}

theorem fragments_eq_element (separators : List Span) {element : Positional}
    (found : elements[index]? = some element) :
    fragmentsElements separators elements = fragmentsElements separators (elements.take index) ++
      element.fragments ++ elementBack separators elements index := by
  obtain ⟨bound, here⟩ := List.getElem?_eq_some_iff.mp found
  have split : elements = elements.take index ++ element :: elements.drop (index + 1) := by
    rw [← here]
    exact (List.take_append_drop index elements).symm.trans
      (congrArg (elements.take index ++ ·) (List.drop_eq_getElem_cons bound))
  have length : (elements.take index).length = index := by
    rw [List.length_take]
    omega
  conv_lhs => rw [split]
  rw [fragmentsElements_append, length, fragmentsElements, List.drop_drop, elementBack]
  simp

/-- One element of a list, whatever takes its place. -/
theorem framed_element (twins : List.Forall₂ Twin elements elements') (separators : List Span)
    (bound : index < elements.length) :
    Framed (fragmentsElements separators (elements.take index)) (elementBack separators elements index)
      (fun other => pointsElements .standard (elements'.set index other))
      (Decorated.points .standard) := by
  have same := twins.length_eq
  have front := length_pointsElements separators _ (List.forall₂_take index twins)
  have back := length_pointsElements (separators.drop (index + 1)) _ (List.forall₂_drop (index + 1) twins)
  have separator : pointFragments ((separators.drop index).head?.map Fragment.separator).toList = [] :=
    pointFragments_separators _
  refine ⟨pointsElements .standard (elements'.take index),
    pointsElements .standard (elements'.drop (index + 1)), front, ?_, fun other => ?_⟩
  · rw [elementBack, pointFragments_append, separator]
    simpa using back
  · have set : elements'.set index other =
        elements'.take index ++ other :: elements'.drop (index + 1) :=
      List.set_eq_take_append_cons_drop.trans (if_pos (by omega))
    show pointsElements .standard (elements'.set index other) = _
    rw [set, pointsElements_append, pointsElements]
    simp

end Elements

/-! ## Steps and paths -/

theorem getElem?_of_forall₂ {α β : Type} {related : α → β → Prop} {left : List α} {right : List β}
    (pairs : List.Forall₂ related left right) {index : Nat} {a : α} (found : left[index]? = some a) :
    ∃ b, right[index]? = some b ∧ related a b := by
  induction pairs generalizing index with
  | nil => simp at found
  | cons here _ ih =>
    cases index with
    | zero =>
      obtain rfl := Option.some.inj found
      exact ⟨_, rfl, here⟩
    | succ index => exact ih found

theorem exists_index_of_slot? {tree : Positional} {anchor : Anchor} {slot : PositionalSlot}
    (found : tree.slot? anchor = some slot) :
    ∃ index, tree.indexOf? anchor = some index ∧ tree.slots[index]? = some slot :=
  Option.bind_eq_some_iff.mp found

namespace Twin

variable {tree : Positional} {decorated : Decorated} (twin : Twin tree decorated)
include twin

/-- The slot of an anchor, whatever it holds. -/
theorem slot {anchor : Anchor} {index : Nat} {slot : PositionalSlot}
    (isIndex : tree.indexOf? anchor = some index) (found : tree.slots[index]? = some slot) :
    ∃ slot', decorated.slot? anchor = some slot' ∧ TwinSlot slot slot' ∧
      Framed (slotFront tree index) (slotBack tree index)
        (fun slot' => points .standard (decorated.setSlot anchor slot'))
        (pointsSlot .standard decorated.decorations anchor) := by
  obtain ⟨kind, span, slots⟩ := tree
  obtain ⟨decorations, slots', rfl, lengths, twins⟩ := twin.slots
  have isIndex : (standardShape kind).anchors.findIdx? (·.anchor == anchor) = some index := isIndex
  obtain ⟨bound, isAnchor, -⟩ := List.findIdx?_eq_some_iff_getElem.mp isIndex
  obtain ⟨slot', found', twinSlot⟩ := getElem?_of_forall₂ twins found
  have isAnchor : (standardShape kind).anchors[index].anchor = anchor := by simpa using isAnchor
  have at? : (SlotTree.node kind decorations slots' : Decorated).indexOf? anchor = some index :=
    isIndex
  refine ⟨slot', ?_, twinSlot, ?_⟩
  · rw [SlotTree.slot?, at?]
    exact found'
  · have framed := framed_slot span decorations twins lengths
      (List.getElem?_eq_getElem bound)
    rw [isAnchor] at framed
    simp only [SlotTree.setSlot, at?]
    exact framed

/-- The elements of a list, whatever the list holds. -/
theorem elements {anchor : Anchor} {index : Nat} {elements : List Positional}
    {separators : List Span} (isIndex : tree.indexOf? anchor = some index)
    (found : tree.slots[index]? = some (.list elements separators)) :
    ∃ elements', decorated.slot? anchor = some (.list elements' ()) ∧
      List.Forall₂ Twin elements elements' ∧
      Framed (slotFront tree index) (slotBack tree index)
        (fun others => points .standard (decorated.setSlot anchor (.list others ())))
        (pointsElements .standard) := by
  obtain ⟨slot', found', twinSlot, framed⟩ := twin.slot isIndex found
  obtain ⟨elements', rfl, twins⟩ := twinSlot.list
  refine ⟨elements', found', twins, ?_⟩
  have inside : Framed [] [] (fun others => pointsSlot .standard decorated.decorations anchor
      (.list others ())) (pointsElements .standard) :=
    ⟨[], [], rfl, rfl, fun others => by simp [pointsSlot]⟩
  simpa using framed.trans (fun others => .list others ()) inside

/-- One step down, to whatever takes the place of the subtree. -/
theorem step {step : PathStep} {subtree : Positional} (found : tree.step? step = some subtree) :
    ∃ subtree' front back, decorated.step? step = some subtree' ∧ Twin subtree subtree' ∧
      tree.fragments = front ++ subtree.fragments ++ back ∧
      Framed front back (fun other => points .standard (decorated.putStep step other))
        (Decorated.points .standard) := by
  cases step with
  | child anchor =>
    cases slot : tree.slot? anchor with
    | none => simp [SlotTree.step?, SlotTree.child?, slot] at found
    | some content =>
      cases content with
      | token | list => simp [SlotTree.step?, SlotTree.child?, slot] at found
      | child content =>
        obtain rfl : content = some subtree := by
          simpa [SlotTree.step?, SlotTree.child?, slot] using found
        obtain ⟨index, isIndex, found⟩ := exists_index_of_slot? slot
        obtain ⟨slot', found', twinSlot, framed⟩ := twin.slot isIndex found
        obtain ⟨subtree', rfl, below⟩ := twinSlot.child
        have put : ∀ other, decorated.putStep (.child anchor) other =
            decorated.setSlot anchor (.child (some other)) := fun other => by
          simp [SlotTree.putStep, PathStep.anchor, found']
        have inside : Framed [] [.point (.point subtree.info.stop)] (fun other =>
            pointsSlot .standard decorated.decorations anchor (.child (some other)))
            (Decorated.points .standard) :=
          ⟨[], [decorated.decorations.ofAnchor anchor], rfl, rfl, fun other => by simp [pointsSlot]⟩
        refine ⟨subtree', slotFront tree index,
          [.point (.point subtree.info.stop)] ++ slotBack tree index,
          by simp [SlotTree.step?, SlotTree.child?, found'], below, ?_, ?_⟩
        · rw [fragments_eq_slot found]
          simp [fragmentsSlots]
        · simp only [put]
          simpa using framed.trans (fun other => .child (some other)) inside
  | element anchor place =>
    cases slot : tree.slot? anchor with
    | none => simp [SlotTree.step?, SlotTree.elements, SlotTree.elements?, slot] at found
    | some content =>
      cases content with
      | token | child => simp [SlotTree.step?, SlotTree.elements, SlotTree.elements?, slot] at found
      | list elements separators =>
        have isElement : elements[place]? = some subtree := by
          simpa [SlotTree.step?, SlotTree.elements, SlotTree.elements?, slot] using found
        obtain ⟨index, isIndex, found⟩ := exists_index_of_slot? slot
        obtain ⟨elements', found', twins, framed⟩ := twin.elements isIndex found
        obtain ⟨subtree', here, below⟩ := getElem?_of_forall₂ twins isElement
        have put : ∀ other, decorated.putStep (.element anchor place) other =
            decorated.setSlot anchor (.list (elements'.set place other) ()) := fun other => by
          simp [SlotTree.putStep, PathStep.anchor, found']
        refine ⟨subtree', slotFront tree index ++ fragmentsElements separators (elements.take place),
          elementBack separators elements place ++ slotBack tree index, ?_, below, ?_, ?_⟩
        · simpa [SlotTree.step?, SlotTree.elements, SlotTree.elements?, found'] using here
        · have whole : fragmentsSlots [.list elements separators] =
              fragmentsElements separators elements := by simp [fragmentsSlots]
          rw [fragments_eq_slot found, whole, fragments_eq_element separators isElement]
          simp only [List.append_assoc]
        · simp only [put]
          exact framed.trans (elements'.set place)
            (framed_element twins separators (List.getElem?_eq_some_iff.mp isElement).1)

omit twin in
/-- A path down, to whatever takes the place of the subtree. -/
theorem follow (twin : Twin tree decorated) {path : Path} {subtree : Positional}
    (found : tree.follow path = .ok subtree) :
    ∃ subtree' front back, decorated.follow path = .ok subtree' ∧ Twin subtree subtree' ∧
      tree.fragments = front ++ subtree.fragments ++ back ∧
      Framed front back (fun other => points .standard (decorated.put path other))
        (Decorated.points .standard) := by
  induction path generalizing tree decorated with
  | nil =>
    obtain rfl := Except.ok.inj found
    exact ⟨decorated, [], [], rfl, twin, by simp, .refl _⟩
  | cons step path ih =>
    rw [SlotTree.follow] at found
    cases here : tree.step? step with
    | none => simp [here] at found
    | some below =>
      rw [here] at found
      obtain ⟨below', front, back, here', twinBelow, split, framed⟩ := twin.step here
      obtain ⟨subtree', front', back', found', twinSubtree, split', framed'⟩ := ih twinBelow found
      refine ⟨subtree', front ++ front', back' ++ back, ?_, twinSubtree, ?_, ?_⟩
      · rw [SlotTree.follow, here']
        exact found'
      · rw [split, split']
        simp
      · simp only [SlotTree.put, here']
        exact framed.trans (below'.put path) framed'

end Twin

/-- A tree looks like the one it was built from. -/
theorem twin_rebuild {tree : Positional} (kinded : Kinded .standard tree.preorder)
    (supply : List Decoration) : Twin tree (Decorate.rebuild .standard tree supply).1 :=
  ⟨Decorate.erase_rebuild tree supply kinded, kinded⟩

end GoTrivia

import GoTrivia.Proofs.Tree.Faults
import GoTrivia.Proofs.Tree.Replacing

/-!
# Trees with the slots of their kinds

A tree is well slotted if each of its nodes has one slot of the right kind for each anchor of its
standard shape.  What its slots hold is left open: tokens may have any text, and any slot may be
empty.  So the content of a slot can be replaced by any other content of the same kind, at the root
or at the end of a path, and the tree stays well slotted.

**One slot.** A node that differs from another one in a single slot is described by `ChangedAt`, and
`ChangedBelow` says the same of the node at the end of a path.  Everything beside the path is as
it was.
-/

set_option autoImplicit false

namespace GoTrivia

namespace SlotTree

variable {ν τ σ : Type} {tree node : SlotTree ν τ σ}

/-! ## Well slotted trees -/

/-- Each node has one slot of the right kind for each anchor of its standard shape. -/
def WellSlotted (tree : SlotTree ν τ σ) : Prop := ∀ node ∈ tree.preorder, node.Kinded .standard

/-- The trees in a slot are well slotted. -/
def SlotSound (slot : Slot ν τ σ) : Prop := ∀ node ∈ preorderSlots [slot], node.Kinded .standard

theorem preorderElements_eq_flatMap (trees : List (SlotTree ν τ σ)) :
    preorderElements trees = trees.flatMap preorder := by
  induction trees with
  | nil => rfl
  | cons tree trees ih => rw [preorderElements, ih, List.flatMap_cons]

theorem preorderSlots_eq_flatMap (slots : List (Slot ν τ σ)) :
    preorderSlots slots = slots.flatMap fun slot => preorderSlots [slot] := by
  induction slots with
  | nil => rfl
  | cons slot slots ih => rw [preorderSlots_cons, ih, List.flatMap_cons]

@[simp]
theorem slotSound_token (token : Option τ) : SlotSound (.token token : Slot ν τ σ) := by
  simp [SlotSound, preorderSlots]

@[simp]
theorem slotSound_child (child : Option (SlotTree ν τ σ)) :
    SlotSound (.child child) ↔ ∀ tree ∈ child, tree.WellSlotted := by
  cases child <;> simp [SlotSound, WellSlotted, preorderSlots]

@[simp]
theorem slotSound_list (elements : List (SlotTree ν τ σ)) (separators : σ) :
    SlotSound (.list elements separators) ↔ ∀ tree ∈ elements, tree.WellSlotted := by
  simp only [SlotSound, WellSlotted, preorderSlots, List.append_nil, preorderElements_eq_flatMap,
    List.mem_flatMap]
  exact ⟨fun sound tree mem node below => sound node ⟨tree, mem, below⟩,
    fun sound node ⟨tree, mem, below⟩ => sound tree mem node below⟩

/-- A tree is well slotted if its root has the right slots and these hold well slotted trees. -/
theorem wellSlotted_iff :
    tree.WellSlotted ↔ tree.Kinded .standard ∧ ∀ slot ∈ tree.slots, SlotSound slot := by
  obtain ⟨kind, info, slots⟩ := tree
  rw [WellSlotted, preorder, List.forall_mem_cons, preorderSlots_eq_flatMap]
  refine and_congr_right fun _ => ?_
  simp only [List.mem_flatMap, SlotSound, SlotTree.slots]
  refine ⟨fun sound slot mem node below => sound node ⟨slot, mem, below⟩, fun sound node => ?_⟩
  rintro ⟨slot, mem, below⟩
  exact sound slot mem node below

theorem wellSlotted_of_follow {path : Path} (sound : tree.WellSlotted)
    (found : tree.follow path = .ok node) : node.WellSlotted := by
  suffices below : node.preorder ⊆ tree.preorder from fun other mem => sound other (below mem)
  clear sound
  induction path generalizing tree with
  | nil =>
    obtain rfl := Except.ok.inj found
    exact List.Subset.refl _
  | cons step path ih =>
    rw [follow] at found
    cases here : tree.step? step with
    | none => simp [here] at found
    | some below =>
      rw [here] at found
      exact List.Subset.trans (ih found) (preorder_subset_of_step? here)

theorem slotSound_of_slot? {anchor : Anchor} {slot : Slot ν τ σ} (sound : tree.WellSlotted)
    (found : tree.slot? anchor = some slot) : SlotSound slot :=
  fun node below => sound node (preorderSlots_subset_of_slot? found below)

/-! ## The slot of an anchor -/

/-- A node has one slot for each anchor, in the order of the anchors. -/
theorem kinded_iff : node.Kinded .standard ↔
    List.Forall₂ (fun anchor slot => slot.fits anchor.slot = true)
      (standardShape node.kind).anchors node.slots := by
  rw [List.forall₂_iff_zip]
  constructor
  · rintro ⟨shape, known, counted, fits⟩
    obtain rfl := Option.some.inj known
    exact ⟨counted, fun mem => fits _ mem⟩
  · rintro ⟨counted, fits⟩
    exact ⟨_, rfl, counted, fun pair mem => fits mem⟩

/-- An anchor has a slot of the kind that the shape says, if the shape has the anchor. -/
theorem slot?_of_kinded (kinded : node.Kinded .standard) (anchor : Anchor) :
    Option.Rel (fun shape slot => slot.fits shape.slot = true)
      ((standardShape node.kind).find? anchor) (node.slot? anchor) := by
  have pairs := kinded_iff.mp kinded
  rw [Shape.find?, List.find?_eq_bind_findIdx?_getElem?, slot?, indexOf?, Shape.indexOf?]
  cases place : (standardShape node.kind).anchors.findIdx? (·.anchor == anchor) with
  | none => exact .none
  | some index =>
    obtain ⟨bound, -⟩ := List.findIdx?_eq_some_iff_getElem.mp place
    have bound' : index < node.slots.length := pairs.length_eq ▸ bound
    rw [Option.bind_some, Option.bind_some, List.getElem?_eq_getElem bound,
      List.getElem?_eq_getElem bound']
    exact .some (List.forall₂_iff_get.mp pairs |>.2 index bound bound')

/-! ## One slot replaced -/

/-- A node that differs from another one in the slot of an anchor alone. -/
structure ChangedAt (anchor : Anchor) (slot : Slot ν τ σ) (node changed : SlotTree ν τ σ) :
    Prop where
  kind : changed.kind = node.kind
  info : changed.info = node.info
  here : changed.slot? anchor = some slot
  others : ∀ index, node.indexOf? anchor ≠ some index → changed.slots[index]? = node.slots[index]?

theorem changedAt_setSlot {anchor : Anchor} {old : Slot ν τ σ}
    (found : node.slot? anchor = some old) (slot : Slot ν τ σ) :
    ChangedAt anchor slot node (node.setSlot anchor slot) := by
  obtain ⟨index, isIndex, found⟩ := Option.bind_eq_some_iff.mp found
  obtain ⟨bound, -⟩ := List.getElem?_eq_some_iff.mp found
  have changed : node.setSlot anchor slot = node.withSlots (node.slots.set index slot) := by
    rw [setSlot, isIndex]
  rw [changed]
  refine ⟨rfl, rfl, ?_, fun other apart => ?_⟩
  · have same : (node.withSlots (node.slots.set index slot)).indexOf? anchor = some index := isIndex
    rw [slot?, same, Option.bind_some]
    exact List.getElem?_set_self bound
  · exact List.getElem?_set_ne fun same : index = other => apart (same ▸ isIndex)

/-- Pairs stay related if one of them is replaced by a related pair. -/
theorem forall₂_set {α β : Type} {related : α → β → Prop} {left : List α} {right : List β}
    (pairs : List.Forall₂ related left right) {index : Nat} {b : β}
    (here : ∀ a, left[index]? = some a → related a b) :
    List.Forall₂ related left (right.set index b) := by
  induction pairs generalizing index with
  | nil => exact .nil
  | cons first rest ih =>
    cases index with
    | zero => exact .cons (here _ rfl) rest
    | succ index => exact .cons first (ih here)

/-- A slot may be replaced by any slot of the same kind that holds well slotted trees. -/
theorem wellSlotted_setSlot {anchor : Anchor} {old slot : Slot ν τ σ} (sound : tree.WellSlotted)
    (found : tree.slot? anchor = some old)
    (alike : ∀ shape, old.fits shape = true → slot.fits shape = true) (inside : SlotSound slot) :
    (tree.setSlot anchor slot).WellSlotted := by
  obtain ⟨kinded, below⟩ := wellSlotted_iff.mp sound
  obtain ⟨index, isIndex, found⟩ := Option.bind_eq_some_iff.mp found
  have changed : tree.setSlot anchor slot =
      .node tree.kind tree.info (tree.slots.set index slot) := by
    rw [setSlot, isIndex]
    rfl
  rw [changed, wellSlotted_iff, kinded_iff]
  have pairs := kinded_iff.mp kinded
  refine ⟨forall₂_set pairs fun shape isShape => ?_, fun other mem => ?_⟩
  · obtain ⟨bound, rfl⟩ := List.getElem?_eq_some_iff.mp isShape
    obtain ⟨bound', rfl⟩ := List.getElem?_eq_some_iff.mp found
    exact alike _ (List.forall₂_iff_get.mp pairs |>.2 index bound bound')
  · rcases List.mem_or_eq_of_mem_set mem with mem | rfl
    · exact below other mem
    · exact inside

/-! ## One slot replaced at the end of a path -/

/-- Two trees that differ in the slot of an anchor of the node at a path alone. -/
inductive ChangedBelow (anchor : Anchor) (slot : Slot ν τ σ) :
    Path → SlotTree ν τ σ → SlotTree ν τ σ → Prop
  | here {node changed : SlotTree ν τ σ} (only : ChangedAt anchor slot node changed) :
      ChangedBelow anchor slot [] node changed
  | child {owner : Anchor} {path : Path} {tree after below changed : SlotTree ν τ σ}
      (found : tree.slot? owner = some (.child (some below)))
      (only : ChangedAt owner (.child (some changed)) tree after)
      (inside : ChangedBelow anchor slot path below changed) :
      ChangedBelow anchor slot (.child owner :: path) tree after
  | element {owner : Anchor} {index : Nat} {path : Path} {tree after below changed : SlotTree ν τ σ}
      {elements : List (SlotTree ν τ σ)} {separators : σ}
      (found : tree.slot? owner = some (.list elements separators))
      (isElement : elements[index]? = some below)
      (only : ChangedAt owner (.list (elements.set index changed) separators) tree after)
      (inside : ChangedBelow anchor slot path below changed) :
      ChangedBelow anchor slot (.element owner index :: path) tree after

/-- A step leads to a child or to an element of a list. -/
theorem child_or_element_of_step? {step : PathStep} {below : SlotTree ν τ σ}
    (found : tree.step? step = some below) :
    (∃ anchor, step = .child anchor ∧ tree.slot? anchor = some (.child (some below)) ∧
      ∀ other, tree.putStep step other = tree.setSlot anchor (.child (some other))) ∨
    ∃ anchor index elements separators, step = .element anchor index ∧
      tree.slot? anchor = some (.list elements separators) ∧ elements[index]? = some below ∧
      ∀ other, tree.putStep step other =
        tree.setSlot anchor (.list (elements.set index other) separators) := by
  cases step with
  | child anchor =>
    left
    simp only [step?, child?] at found
    split at found
    · next content slot =>
      subst found
      exact ⟨anchor, rfl, slot, fun other => by simp [putStep, PathStep.anchor, slot]⟩
    · cases found
  | element anchor index =>
    right
    simp only [step?, elements, elements?] at found
    split at found
    · next content separators slot =>
      exact ⟨anchor, index, content, separators, rfl, slot, found,
        fun other => by simp [putStep, PathStep.anchor, slot]⟩
    · simp at found

theorem changedBelow_put {anchor : Anchor} {slot : Slot ν τ σ} {path : Path}
    {changed : SlotTree ν τ σ} (found : tree.follow path = .ok node)
    (only : ChangedAt anchor slot node changed) :
    ChangedBelow anchor slot path tree (tree.put path changed) := by
  induction path generalizing tree with
  | nil =>
    obtain rfl := Except.ok.inj found
    exact .here only
  | cons step path ih =>
    rw [follow] at found
    cases here : tree.step? step with
    | none => simp [here] at found
    | some below =>
      rw [here] at found
      simp only [put, here]
      have inside := ih found
      obtain ⟨owner, rfl, isSlot, puts⟩ |
          ⟨owner, index, elements, separators, rfl, isSlot, isElement, puts⟩ :=
        child_or_element_of_step? here
      · rw [puts]
        exact .child isSlot (changedAt_setSlot isSlot _) inside
      · rw [puts]
        exact .element isSlot isElement (changedAt_setSlot isSlot _) inside

/-- A well slotted tree may be put in the place of any subtree. -/
theorem wellSlotted_put {path : Path} {subtree : SlotTree ν τ σ} (sound : tree.WellSlotted)
    (inside : subtree.WellSlotted) : (tree.put path subtree).WellSlotted := by
  induction path generalizing tree with
  | nil => exact inside
  | cons step path ih =>
    cases here : tree.step? step with
    | none => simpa only [put, here] using sound
    | some below =>
      simp only [put, here]
      obtain ⟨owner, rfl, isSlot, puts⟩ |
          ⟨owner, index, elements, separators, rfl, isSlot, isElement, puts⟩ :=
        child_or_element_of_step? here
      · have old := (slotSound_child _).mp (slotSound_of_slot? sound isSlot)
        rw [puts]
        refine wellSlotted_setSlot sound isSlot (fun shape fits => ?_) ?_
        · cases shape <;> exact fits
        · rw [slotSound_child]
          rintro tree ⟨⟩
          exact ih (old below rfl)
      · have old := (slotSound_list _ _).mp (slotSound_of_slot? sound isSlot)
        rw [puts]
        refine wellSlotted_setSlot sound isSlot (fun shape fits => ?_) ?_
        · cases shape <;> exact fits
        · rw [slotSound_list]
          intro tree mem
          rcases List.mem_or_eq_of_mem_set mem with mem | rfl
          · exact old tree mem
          · exact ih (old below (List.mem_of_getElem? isElement))

end SlotTree

end GoTrivia

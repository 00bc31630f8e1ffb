import GoTrivia.Proofs.Decorating.AnyText
import GoTrivia.Proofs.Restoring.Passing
import GoTrivia.Proofs.Tree.Faults

/-!
# Trivia on anchors that hold nothing

Trivia can hang on any anchor of a node, also on one that holds nothing to print: an anchor
whose slot is empty, one that has a list, or one that the kind of the node does not have.
Two walks decide independently which anchors these are.  Checking a tree looks at the
decorations of a node and warns about those it has no place for; placing the tree looks at
its slots and asks for the decorations of the anchors it meets.

**Nothing is lost in silence.** The two agree on every node.  The trivia of a restored tree is
that of its comment table and that which was warned about, with nothing left out and nothing
twice.

**Decorating needs no warning.** The decorations a tree is built up with hang on anchors that
hold something, so restoring the tree of a text warns about nothing.
-/

set_option autoImplicit false

namespace GoTrivia

open Restore

/-- The trivia of a decoration, in source order. -/
def Decoration.groups (decoration : Decoration) : List TriviaGroup :=
  decoration.before ++ decoration.after

/-- An anchor of a node that has a decoration. -/
structure Hanging where
  node : Decorated
  anchor : Anchor
  decoration : Decoration

namespace Decorated

/-- The anchor is an end of the node, or it holds a token or a child. -/
def Holds (node : Decorated) (anchor : Anchor) : Prop :=
  anchor = .start ∨ anchor = .finish ∨
    (∃ text, node.slot? anchor = some (.token (some text))) ∨
    ∃ child, node.slot? anchor = some (.child (some child))

/-- The decorations of a node by anchor. -/
def ownHangings (node : Decorated) : List Hanging :=
  node.info.entries.map fun entry => ⟨node, entry.1, entry.2⟩

/-- The decorations of all nodes of a tree. -/
def hangings (tree : Decorated) : List Hanging := tree.preorder.flatMap ownHangings

end Decorated

open Decorated

/-! ## Anchors that hold something -/

theorem isAttached_iff {ν τ σ : Type} {slot : Slot ν τ σ} :
    slot.isAttached = true ↔
      (∃ token, slot = .token (some token)) ∨ ∃ child, slot = .child (some child) := by
  cases slot with
  | token content => cases content <;> simp [Slot.isAttached]
  | child content => cases content <;> simp [Slot.isAttached]
  | list elements separators => simp [Slot.isAttached]

/-- The trivia of an anchor is placed exactly if the anchor holds something. -/
theorem isPlaced_iff {node : Decorated} {anchor : Anchor} :
    isPlaced (standardShape node.kind) node anchor = true ↔ node.Holds anchor := by
  have ends : anchor.isImplicit = true ↔ anchor = .start ∨ anchor = .finish := by
    simp [Anchor.isImplicit]
  rw [isPlaced, Bool.or_eq_true, ends, or_assoc, Holds]
  apply or_congr_right
  apply or_congr_right
  simp only [SlotTree.slot?, SlotTree.indexOf?]
  cases (standardShape node.kind).indexOf? anchor with
  | none => simp
  | some index =>
    simp only [Option.any_eq_true, isAttached_iff, Option.bind_some]
    grind

instance (node : Decorated) (anchor : Anchor) : Decidable (node.Holds anchor) :=
  decidable_of_iff _ isPlaced_iff

namespace Hanging

/-- Trivia that has no place. -/
def IsDropped (hanging : Hanging) : Prop :=
  hanging.decoration.isEmpty = false ∧ ¬ hanging.node.Holds hanging.anchor

instance (hanging : Hanging) : Decidable hanging.IsDropped := inferInstanceAs (Decidable (_ ∧ _))

/-- The trivia of the decoration. -/
def groups (hanging : Hanging) : List TriviaGroup := hanging.decoration.groups

/-- The warning about trivia that has no place. -/
def warning (hanging : Hanging) : Event := .dropped hanging.node.kind hanging.anchor

end Hanging

/-- The decorations of a tree that have no place. -/
def Decorated.dropped (tree : Decorated) : List Hanging :=
  tree.hangings.filter fun hanging => hanging.IsDropped

/-! ## The anchors of a node that are placed -/

/-- The anchors of slots that hold a token or a child. -/
def attachedAnchors {ν τ σ : Type} (shapes : List AnchorShape) (slots : List (Slot ν τ σ)) :
    List Anchor :=
  ((shapes.zip slots).filter fun pair => pair.2.isAttached).map fun pair => pair.1.anchor

/-- The ends of a node and the anchors that hold something, in the order of the walk. -/
def heldAnchors (node : Decorated) : List Anchor :=
  .start :: (attachedAnchors (standardShape node.kind).anchors node.slots ++ [.finish])

@[simp]
theorem attachedAnchors_nil_left {ν τ σ : Type} (slots : List (Slot ν τ σ)) :
    attachedAnchors [] slots = [] := rfl

@[simp]
theorem attachedAnchors_nil_right {ν τ σ : Type} (shapes : List AnchorShape) :
    attachedAnchors shapes ([] : List (Slot ν τ σ)) = [] := by
  simp [attachedAnchors]

theorem attachedAnchors_cons {ν τ σ : Type} (shape : AnchorShape) (shapes : List AnchorShape)
    (slot : Slot ν τ σ) (slots : List (Slot ν τ σ)) :
    attachedAnchors (shape :: shapes) (slot :: slots) =
      (if slot.isAttached then [shape.anchor] else []) ++ attachedAnchors shapes slots := by
  cases attached : slot.isAttached <;> simp [attachedAnchors, attached]

theorem attachedAnchors_sublist {ν τ σ : Type} (shapes : List AnchorShape)
    (slots : List (Slot ν τ σ)) :
    (attachedAnchors shapes slots).Sublist (shapes.map AnchorShape.anchor) := by
  induction shapes generalizing slots with
  | nil => exact List.Sublist.refl _
  | cons shape shapes ih =>
    cases slots with
    | nil => simp
    | cons slot slots =>
      rw [attachedAnchors_cons, List.map_cons]
      split
      · exact (ih slots).cons_cons _
      · exact (ih slots).cons _

theorem nodup_heldAnchors (node : Decorated) : (heldAnchors node).Nodup := by
  have sublist := attachedAnchors_sublist (standardShape node.kind).anchors node.slots
  have explicit : ∀ anchor ∈ attachedAnchors (standardShape node.kind).anchors node.slots,
      anchor.isImplicit = false := by
    intro anchor mem
    obtain ⟨shape, inShape, rfl⟩ := List.mem_map.mp (sublist.subset mem)
    exact not_isImplicit_of_mem inShape
  have start : Anchor.start ∉ attachedAnchors (standardShape node.kind).anchors node.slots :=
    fun mem => absurd (explicit _ mem) (by decide)
  have finish : Anchor.finish ∉ attachedAnchors (standardShape node.kind).anchors node.slots :=
    fun mem => absurd (explicit _ mem) (by decide)
  have distinct := (nodup_anchors node.kind).sublist sublist
  simp [heldAnchors, List.nodup_append, distinct, start]
  exact fun anchor mem same => finish (same ▸ mem)

/-- The slot of an anchor stands beside the anchor in its shape. -/
theorem mem_attachedAnchors_iff {node : Decorated} {anchor : Anchor} :
    anchor ∈ attachedAnchors (standardShape node.kind).anchors node.slots ↔
      ∃ slot, node.slot? anchor = some slot ∧ slot.isAttached = true := by
  have nodup := nodup_anchors node.kind
  simp only [attachedAnchors, List.mem_map, List.mem_filter, SlotTree.slot?, SlotTree.indexOf?,
    Shape.indexOf?, Option.bind_eq_some_iff, List.findIdx?_eq_some_iff_getElem]
  constructor
  · rintro ⟨⟨shape, slot⟩, ⟨mem, attached⟩, rfl⟩
    obtain ⟨index, inside, found⟩ := List.mem_iff_getElem.mp mem
    rw [List.length_zip, Nat.lt_min] at inside
    rw [List.getElem_zip, Prod.mk.injEq] at found
    refine ⟨slot, ⟨index, ⟨inside.1, by simp [found.1], fun earlier before => ?_⟩, ?_⟩, attached⟩
    · have apart := List.pairwise_iff_getElem.mp nodup earlier index (by simp; omega)
        (by simpa using inside.1) before
      simpa [found.1] using apart
    · rw [List.getElem?_eq_getElem inside.2, found.2]
  · rintro ⟨slot, ⟨index, ⟨inside, same, -⟩, found⟩, attached⟩
    obtain ⟨inSlots, here⟩ := List.getElem?_eq_some_iff.mp found
    refine ⟨((standardShape node.kind).anchors[index], slot), ⟨?_, attached⟩, by simpa using same⟩
    refine List.mem_iff_getElem.mpr ⟨index, by rw [List.length_zip]; omega, ?_⟩
    rw [List.getElem_zip, here]

/-- These are the anchors that hold something. -/
theorem mem_heldAnchors_iff {node : Decorated} {anchor : Anchor} :
    anchor ∈ heldAnchors node ↔ node.Holds anchor := by
  simp only [heldAnchors, List.mem_cons, List.mem_append, mem_attachedAnchors_iff, isAttached_iff,
    List.not_mem_nil, or_false, Holds]
  grind

/-! ## Trivia by anchor and by entry -/

/-- The trivia of an anchor. -/
def groupsAt (decorations : Decorations) (anchor : Anchor) : List TriviaGroup :=
  (decorations.ofAnchor anchor).groups

/-- There is one entry for an anchor at most. -/
theorem groupsAt_eq_flatMap (decorations : Decorations) (anchor : Anchor) :
    groupsAt decorations anchor =
      (decorations.entries.filter fun entry => entry.1 = anchor).flatMap fun entry =>
        entry.2.groups := by
  obtain ⟨entries, distinct⟩ := decorations
  simp only [groupsAt, Decorations.ofAnchor, OrderedMap.get?]
  induction entries with
  | nil => simp [OrderedMap.find, Decoration.groups, Decoration.empty]
  | cons entry entries ih =>
    obtain ⟨found, decoration⟩ := entry
    obtain ⟨absent, distinct⟩ := List.nodup_cons.mp distinct
    by_cases same : found = anchor
    · subst same
      have others : entries.filter (fun entry => decide (entry.1 = found)) = [] := by
        rw [List.filter_eq_nil_iff]
        intro entry mem
        have other : entry.1 ≠ found :=
          fun same => absent (List.mem_map.mpr ⟨entry, mem, same⟩)
        simpa using other
      simp [OrderedMap.find, others]
    · simpa [OrderedMap.find, same] using ih distinct

/-- The trivia of different anchors is that of the entries for them. -/
theorem groupsAt_perm {anchors : List Anchor} (distinct : anchors.Nodup)
    (decorations : Decorations) :
    (anchors.flatMap (groupsAt decorations)).Perm
      ((decorations.entries.filter fun entry => entry.1 ∈ anchors).flatMap fun entry =>
        entry.2.groups) := by
  induction anchors with
  | nil => simp
  | cons anchor anchors ih =>
    obtain ⟨absent, distinct⟩ := List.nodup_cons.mp distinct
    have here : (decorations.entries.filter fun entry => entry.1 ∈ anchor :: anchors).filter
        (fun entry => entry.1 = anchor) =
          decorations.entries.filter fun entry => entry.1 = anchor := by
      rw [List.filter_filter]
      apply List.filter_congr
      intro entry _
      by_cases same : entry.1 = anchor <;> simp [same]
    have there : (decorations.entries.filter fun entry => entry.1 ∈ anchor :: anchors).filter
        (fun entry => !decide (entry.1 = anchor)) =
          decorations.entries.filter fun entry => entry.1 ∈ anchors := by
      rw [List.filter_filter]
      apply List.filter_congr
      intro entry _
      by_cases same : entry.1 = anchor <;> simp [same, absent]
    have split := List.filter_append_perm (fun entry => decide (entry.1 = anchor))
      (decorations.entries.filter fun entry => entry.1 ∈ anchor :: anchors)
    rw [here, there] at split
    rw [List.flatMap_cons, groupsAt_eq_flatMap]
    refine ((ih distinct).append_left _).trans ?_
    rw [← List.flatMap_append]
    exact split.flatMap_right _

/-! ## What is passed -/

/-- The trivia of some nodes whose anchors hold something. -/
def heldGroups (nodes : List Decorated) : List TriviaGroup :=
  nodes.flatMap fun node => (heldAnchors node).flatMap (groupsAt node.info)

@[simp]
theorem heldGroups_append (front back : List Decorated) :
    heldGroups (front ++ back) = heldGroups front ++ heldGroups back := List.flatMap_append

@[simp]
theorem heldGroups_nil : heldGroups [] = [] := rfl

@[simp]
theorem group?_group (group : TriviaGroup) : (Passed.group group).group? = some group := rfl

@[simp]
theorem group?_anchor (kind : NodeKind) (anchor : Anchor) :
    (Passed.anchor kind anchor).group? = none := rfl

@[simp]
theorem group?_separator : Passed.separator.group? = none := rfl

@[simp]
theorem filterMap_group?_map (groups : List TriviaGroup) :
    (groups.map Passed.group).filterMap Passed.group? = groups := by
  induction groups with
  | nil => rfl
  | cons group groups ih => rw [List.map_cons, List.filterMap_cons, group?_group, ih]

@[simp]
theorem filterMap_group?_passAnchor (kind : NodeKind) (decorations : Decorations)
    (anchor : Anchor) :
    (passAnchor kind decorations anchor).filterMap Passed.group? =
      (decorations.ofAnchor anchor).before := by
  rw [passAnchor, List.filterMap_append, filterMap_group?_map]
  simp

@[simp]
theorem filterMap_group?_passPoint (kind : NodeKind) (decorations : Decorations)
    (anchor : Anchor) :
    (passPoint kind decorations anchor).filterMap Passed.group? = groupsAt decorations anchor := by
  rw [passPoint, List.filterMap_append, filterMap_group?_map, filterMap_group?_passAnchor]
  rfl

/-- A node passes the trivia of its ends and of its slots. -/
theorem filterMap_group?_fullPass (registry : Registry) (kind : NodeKind)
    (decorations : Decorations) (slots : List DecoratedSlot) :
    (fullPass registry (.node kind decorations slots)).filterMap Passed.group? =
      groupsAt decorations .start ++
        (passSlots registry kind decorations (registry.anchorsOf kind) slots).filterMap
          Passed.group? ++ groupsAt decorations .finish := by
  rw [fullPass, Decorated.pass, List.filterMap_append, List.filterMap_append,
    List.filterMap_append, filterMap_group?_map, filterMap_group?_passPoint,
    filterMap_group?_passAnchor, List.append_assoc]
  rfl

theorem filterMap_group?_passElements_cons (registry : Registry) (separated : Bool)
    (tree : Decorated) (trees : List Decorated) :
    (passElements registry separated (tree :: trees)).filterMap Passed.group? =
      (fullPass registry tree).filterMap Passed.group? ++
        (passElements registry separated trees).filterMap Passed.group? := by
  have between : (if separated then [Passed.separator] else []).filterMap Passed.group? = [] := by
    cases separated <;> rfl
  rw [passElements, fullPass, List.filterMap_append, List.filterMap_append,
    List.filterMap_append, List.filterMap_append, between, List.append_nil]

mutual
/-- A tree passes the trivia of the anchors that hold something. -/
theorem fullPass_perm : ∀ tree : Decorated, Faultless .standard tree.preorder →
    ((fullPass .standard tree).filterMap Passed.group?).Perm (heldGroups tree.preorder)
  | .node kind decorations slots, faultless => by
      rw [SlotTree.preorder] at faultless ⊢
      obtain ⟨here, below⟩ := List.forall_mem_cons.mp faultless
      have inside := passSlots_perm kind decorations (standardShape kind).anchors slots
        (Nat.le_of_eq (SlotTree.length_of_fault? here).symm) below
      have own : heldGroups (.node kind decorations slots :: SlotTree.preorderSlots slots) =
          groupsAt decorations .start ++
            ((attachedAnchors (standardShape kind).anchors slots).flatMap (groupsAt decorations) ++
              groupsAt decorations .finish) ++ heldGroups (SlotTree.preorderSlots slots) := by
        simp [heldGroups, heldAnchors, SlotTree.kind, SlotTree.slots, SlotTree.info]
      rw [filterMap_group?_fullPass, own]
      refine List.perm_iff_count.mpr fun group => ?_
      have counted := inside.count_eq group
      simp only [Registry.anchorsOf, Registry.shape?_standard, List.count_append] at counted ⊢
      omega

theorem passSlots_perm (kind : NodeKind) (decorations : Decorations) :
    ∀ (shapes : List AnchorShape) (slots : List DecoratedSlot), slots.length ≤ shapes.length →
      Faultless .standard (SlotTree.preorderSlots slots) →
      ((passSlots .standard kind decorations shapes slots).filterMap Passed.group?).Perm
        ((attachedAnchors shapes slots).flatMap (groupsAt decorations) ++
          heldGroups (SlotTree.preorderSlots slots))
  | shapes, [], _, _ => by simp [passSlots, SlotTree.preorderSlots]
  | [], slot :: slots, enough, _ => by simp at enough
  | shape :: shapes, slot :: slots, enough, faultless => by
      rw [SlotTree.preorderSlots_cons] at faultless ⊢
      obtain ⟨first, below⟩ := List.forall_mem_append.mp faultless
      have here := passSlot_perm kind decorations shape slot first
      have rest := passSlots_perm kind decorations shapes slots (by simpa using enough) below
      rw [passSlots, List.filterMap_append, attachedAnchors_cons, List.flatMap_append,
        heldGroups_append]
      refine List.perm_iff_count.mpr fun group => ?_
      have counted := here.count_eq group
      have others := rest.count_eq group
      simp only [List.count_append] at counted others ⊢
      omega

theorem passSlot_perm (kind : NodeKind) (decorations : Decorations) (shape : AnchorShape) :
    ∀ slot : DecoratedSlot, Faultless .standard (SlotTree.preorderSlots [slot]) →
      ((passSlot .standard kind decorations shape slot).filterMap Passed.group?).Perm
        ((if slot.isAttached then [shape.anchor] else []).flatMap (groupsAt decorations) ++
          heldGroups (SlotTree.preorderSlots [slot]))
  | .token none, _ => by simp [passSlot, Slot.isAttached, SlotTree.preorderSlots]
  | .token (some text), _ => by simp [passSlot, Slot.isAttached, SlotTree.preorderSlots]
  | .child none, _ => by simp [passSlot, Slot.isAttached, SlotTree.preorderSlots]
  | .child (some child), faultless => by
      have inside := fullPass_perm child (by simpa [SlotTree.preorderSlots] using faultless)
      have passed : (passSlot .standard kind decorations shape (.child (some child))).filterMap
          Passed.group? = (fullPass .standard child).filterMap Passed.group? ++
            groupsAt decorations shape.anchor := by
        simp [passSlot, fullPass]
      rw [passed]
      simpa [Slot.isAttached, SlotTree.preorderSlots] using
        (inside.append_right _).trans List.perm_append_comm
  | .list elements _, faultless => by
      have inside := passElements_perm (isSeparated shape.slot) elements
        (by simpa [SlotTree.preorderSlots] using faultless)
      simpa [passSlot, Slot.isAttached, SlotTree.preorderSlots] using inside

theorem passElements_perm (separated : Bool) :
    ∀ trees : List Decorated, Faultless .standard (SlotTree.preorderElements trees) →
      ((passElements .standard separated trees).filterMap Passed.group?).Perm
        (heldGroups (SlotTree.preorderElements trees))
  | [], _ => by simp [passElements, SlotTree.preorderElements]
  | tree :: trees, faultless => by
      rw [SlotTree.preorderElements] at faultless ⊢
      obtain ⟨first, below⟩ := List.forall_mem_append.mp faultless
      rw [filterMap_group?_passElements_cons, heldGroups_append]
      exact (fullPass_perm tree first).append (passElements_perm separated trees below)
end

/-! ## What is dropped -/

/-- The trivia of a node is that of the anchors that hold something and that which has no
place. -/
theorem ownHangings_perm (node : Decorated) :
    (node.ownHangings.flatMap Hanging.groups).Perm
      ((heldAnchors node).flatMap (groupsAt node.info) ++
        (node.ownHangings.filter fun hanging => hanging.IsDropped).flatMap Hanging.groups) := by
  let holds : Hanging → Bool := fun hanging => hanging.node.Holds hanging.anchor
  have held : (node.ownHangings.filter holds).flatMap Hanging.groups =
      (node.info.entries.filter fun entry => entry.1 ∈ heldAnchors node).flatMap fun entry =>
        entry.2.groups := by
    simp only [ownHangings, List.filter_map, List.flatMap_map, holds, Function.comp_def,
      mem_heldAnchors_iff, Hanging.groups]
  have others : (node.ownHangings.filter fun hanging => !holds hanging).flatMap Hanging.groups =
      (node.ownHangings.filter fun hanging => hanging.IsDropped).flatMap Hanging.groups := by
    induction node.ownHangings with
    | nil => rfl
    | cons hanging hangings ih =>
      by_cases here : hanging.node.Holds hanging.anchor
      · simpa [holds, here, Hanging.IsDropped] using ih
      · cases bare : hanging.decoration.isEmpty with
        | false => simpa [holds, here, bare, Hanging.IsDropped] using ih
        | true =>
          -- An empty decoration has no trivia to drop.
          have nothing : hanging.groups = [] := by
            simpa [Decoration.isEmpty, Hanging.groups, Decoration.groups] using bare
          simpa [holds, here, bare, nothing, Hanging.IsDropped] using ih
  have split := (List.filter_append_perm holds node.ownHangings).symm.flatMap_right Hanging.groups
  rw [List.flatMap_append, held, others] at split
  exact split.trans ((groupsAt_perm (nodup_heldAnchors node) node.info).symm.append_right _)

theorem hangings_perm (nodes : List Decorated) :
    ((nodes.flatMap ownHangings).flatMap Hanging.groups).Perm
      (heldGroups nodes ++ ((nodes.flatMap ownHangings).filter fun hanging =>
        hanging.IsDropped).flatMap Hanging.groups) := by
  induction nodes with
  | nil => simp
  | cons node nodes ih =>
    have own : heldGroups (node :: nodes) =
        (heldAnchors node).flatMap (groupsAt node.info) ++ heldGroups nodes := by
      rw [heldGroups, List.flatMap_cons]
      rfl
    rw [own, List.flatMap_cons, List.flatMap_append, List.filter_append, List.flatMap_append]
    refine List.perm_iff_count.mpr fun group => ?_
    have here := (ownHangings_perm node).count_eq group
    have rest := ih.count_eq group
    simp only [List.count_append] at here rest ⊢
    omega

/-! ## What is warned about -/

/-- Checking a node warns about its decorations that have no place. -/
theorem dropEvents_standard (node : Decorated) :
    dropEvents .standard node =
      (node.ownHangings.filter fun hanging => hanging.IsDropped).map Hanging.warning := by
  have each : droppedAnchors (standardShape node.kind) node =
      (node.ownHangings.filter fun hanging => hanging.IsDropped).map Hanging.anchor := by
    rw [droppedAnchors, ownHangings]
    induction node.info.entries with
    | nil => rfl
    | cons entry entries ih =>
      have placed := @isPlaced_iff node entry.1
      rw [List.filterMap_cons, ih]
      by_cases here : node.Holds entry.1
      · simp [here, placed.mpr here, Hanging.IsDropped]
      · have missing := Bool.eq_false_iff.mpr (placed.not.mpr here)
        cases bare : entry.2.isEmpty <;> simp [here, missing, bare, Hanging.IsDropped]
  simp only [dropEvents, Registry.shape?_standard, each, List.map_map]
  apply List.map_congr_left
  intro hanging mem
  obtain ⟨entry, -, rfl⟩ := List.mem_map.mp (List.mem_of_mem_filter mem)
  rfl

/-- Nodes without faults are checked to the end. -/
theorem audit_events {registry : Registry} {nodes : List Decorated}
    (faultless : Faultless registry nodes) :
    (audit registry nodes).events = nodes.flatMap (dropEvents registry) := by
  induction nodes with
  | nil => rfl
  | cons node nodes ih =>
    obtain ⟨here, below⟩ := List.forall_mem_cons.mp faultless
    rw [audit, here, List.flatMap_cons, ← ih below]

theorem restore_events {tree : DecoratedTree} {restored : Restored}
    (accepted : (tree.restore .standard).result = .ok restored) :
    (tree.restore .standard).events = tree.root.dropped.map Hanging.warning ++
      [.restored restored.positions.length restored.comments.length] := by
  obtain ⟨faultless, rfl⟩ := restore_eq_ok_iff.mp accepted
  have warned : tree.root.preorder.flatMap (dropEvents .standard) =
      tree.root.dropped.map Hanging.warning := by
    rw [Decorated.dropped, Decorated.hangings, List.filter_flatMap, List.map_flatMap]
    exact List.flatMap_congr fun node _ => dropEvents_standard node
  rw [← warned, ← audit_events faultless]
  simp [DecoratedTree.restore, audit_eq_ok_iff.mpr faultless]

/-- The trivia of a restored tree is that of its comment table and that which was dropped. -/
theorem restored_groups_perm {tree : DecoratedTree} {restored : Restored}
    (accepted : (tree.restore .standard).result = .ok restored) :
    (tree.root.hangings.flatMap Hanging.groups).Perm
      (restored.comments.map groupOfRow ++ tree.root.dropped.flatMap Hanging.groups) := by
  obtain ⟨-, -, groups, -⟩ := restored_log_ascends tree .standard restored accepted
  rw [groups]
  exact (hangings_perm tree.root.preorder).trans
    ((fullPass_perm tree.root (restore_eq_ok_iff.mp accepted).1).symm.append_right _)

/-! ## Decorations a tree is built up with -/

section BuildingUp

open Decorate (attach rebuild rebuildSlots rebuildSlot rebuildElements Kinded)

/-- Decorations that are not empty, all of them on certain anchors. -/
def OnlyOn (anchors : List Anchor) (decorations : Decorations) : Prop :=
  ∀ entry ∈ decorations.entries, entry.2.isEmpty = false ∧ entry.1 ∈ anchors

/-- The decorations of a node are not empty, and hang on anchors that hold something. -/
def Decorated.Tidy (node : Decorated) : Prop := OnlyOn (heldAnchors node) node.info

theorem eq_or_mem_of_mem_put {anchor : Anchor} {decoration : Decoration}
    {entries : List (Anchor × Decoration)} {entry : Anchor × Decoration}
    (mem : entry ∈ OrderedMap.put anchor decoration entries) :
    entry = (anchor, decoration) ∨ entry ∈ entries := by
  induction entries with
  | nil => exact .inl (List.mem_singleton.mp mem)
  | cons first entries ih =>
    rw [OrderedMap.put] at mem
    split at mem
    · next same =>
      rcases List.mem_cons.mp mem with rfl | mem
      · exact .inl (by rw [same])
      · exact .inr (List.mem_cons_of_mem _ mem)
    · rcases List.mem_cons.mp mem with rfl | mem
      · exact .inr List.mem_cons_self
      · exact (ih mem).imp_right (List.mem_cons_of_mem _)

/-- Whatever is attached next is attached to one more anchor. -/
theorem OnlyOn.attach {anchors : List Anchor} {decorations : Decorations}
    (onlyOn : OnlyOn anchors decorations) (anchor : Anchor) (supply : List Decoration) :
    OnlyOn (anchors ++ [anchor]) (attach decorations anchor supply).1 := by
  have kept : OnlyOn (anchors ++ [anchor]) decorations := by
    intro entry mem
    exact (onlyOn entry mem).imp_right (List.mem_append_left _)
  cases supply with
  | nil => exact kept
  | cons next rest =>
    cases bare : next.isEmpty with
    | true => simpa [Decorate.attach, bare] using kept
    | false =>
      intro entry mem
      simp only [Decorate.attach, bare, Bool.false_eq_true, if_false, OrderedMap.insert] at mem
      rcases eq_or_mem_of_mem_put mem with rfl | mem
      · exact ⟨bare, List.mem_append_right _ (List.mem_singleton_self _)⟩
      · exact kept entry mem

mutual
/-- A tree is built up with decorations on anchors that hold something. -/
theorem tidy_rebuild : ∀ (tree : Positional) (supply : List Decoration),
    Kinded .standard tree.preorder →
    ∀ node ∈ (rebuild .standard tree supply).1.preorder, Decorated.Tidy node
  | .node kind span slots, supply, kinded => by
      rw [SlotTree.preorder] at kinded
      obtain ⟨here, below⟩ := List.forall_mem_cons.mp kinded
      have bare : OnlyOn [] (OrderedMap.empty : Decorations) := fun entry mem => nomatch mem
      obtain ⟨between, others⟩ := tidy_rebuildSlots (standardShape kind).anchors slots
        (attach .empty .start supply).1 (attach .empty .start supply).2
        (Nat.le_of_eq (Decorate.length_of_kindFault? here).symm) below (bare.attach .start supply)
      rw [rebuild]
      refine List.forall_mem_cons.mpr ⟨?_, others⟩
      exact between.attach .finish _

theorem tidy_rebuildSlots : ∀ (shapes : List AnchorShape) (slots : List PositionalSlot)
    (decorations : Decorations) (supply : List Decoration) {anchors : List Anchor},
    slots.length ≤ shapes.length → Kinded .standard (SlotTree.preorderSlots slots) →
    OnlyOn anchors decorations →
    OnlyOn (anchors ++
        attachedAnchors shapes (rebuildSlots .standard shapes slots decorations supply).1)
      (rebuildSlots .standard shapes slots decorations supply).2.1 ∧
      ∀ node ∈ SlotTree.preorderSlots (rebuildSlots .standard shapes slots decorations supply).1,
        Decorated.Tidy node
  | shapes, [], decorations, supply, _, _, _, onlyOn => by
      simpa [rebuildSlots, SlotTree.preorderSlots] using onlyOn
  | [], slot :: slots, _, _, _, enough, _, _ => by simp at enough
  | shape :: shapes, slot :: slots, decorations, supply, anchors, enough, kinded, onlyOn => by
      rw [SlotTree.preorderSlots_cons] at kinded
      obtain ⟨first, below⟩ := List.forall_mem_append.mp kinded
      obtain ⟨here, inside⟩ := tidy_rebuildSlot shape.anchor slot decorations supply first onlyOn
      obtain ⟨there, others⟩ := tidy_rebuildSlots shapes slots _
        (rebuildSlot .standard shape.anchor slot decorations supply).2.2 (by simpa using enough)
        below here
      rw [rebuildSlots, attachedAnchors_cons, ← List.append_assoc, SlotTree.preorderSlots_cons]
      exact ⟨there, List.forall_mem_append.mpr ⟨inside, others⟩⟩

theorem tidy_rebuildSlot (anchor : Anchor) : ∀ (slot : PositionalSlot)
    (decorations : Decorations) (supply : List Decoration) {anchors : List Anchor},
    Kinded .standard (SlotTree.preorderSlots [slot]) → OnlyOn anchors decorations →
    OnlyOn (anchors ++ if (rebuildSlot .standard anchor slot decorations supply).1.isAttached
        then [anchor] else [])
      (rebuildSlot .standard anchor slot decorations supply).2.1 ∧
      ∀ node ∈ SlotTree.preorderSlots [(rebuildSlot .standard anchor slot decorations supply).1],
        Decorated.Tidy node
  | .token none, _, _, _, _, onlyOn => by
      simpa [rebuildSlot, Slot.isAttached, SlotTree.preorderSlots] using onlyOn
  | .token (some lexeme), _, supply, _, _, onlyOn => by
      simpa [rebuildSlot, Slot.isAttached, SlotTree.preorderSlots] using onlyOn.attach anchor supply
  | .child none, _, _, _, _, onlyOn => by
      simpa [rebuildSlot, Slot.isAttached, SlotTree.preorderSlots] using onlyOn
  | .child (some child), _, supply, _, kinded, onlyOn => by
      have inside := tidy_rebuild child supply (by simpa [SlotTree.preorderSlots] using kinded)
      exact ⟨onlyOn.attach anchor _, by simpa [rebuildSlot, SlotTree.preorderSlots] using inside⟩
  | .list elements _, _, supply, _, kinded, onlyOn => by
      have inside := tidy_rebuildElements elements supply
        (by simpa [SlotTree.preorderSlots] using kinded)
      simpa [rebuildSlot, Slot.isAttached, SlotTree.preorderSlots] using ⟨onlyOn, inside⟩

theorem tidy_rebuildElements : ∀ (trees : List Positional) (supply : List Decoration),
    Kinded .standard (SlotTree.preorderElements trees) →
    ∀ node ∈ SlotTree.preorderElements (rebuildElements .standard trees supply).1,
      Decorated.Tidy node
  | [], _, _ => by simp [rebuildElements, SlotTree.preorderElements]
  | tree :: trees, supply, kinded => by
      rw [SlotTree.preorderElements] at kinded
      obtain ⟨first, below⟩ := List.forall_mem_append.mp kinded
      rw [rebuildElements]
      exact List.forall_mem_append.mpr ⟨tidy_rebuild tree supply first,
        tidy_rebuildElements trees _ below⟩
end

end BuildingUp

/-! ## Warnings -/

theorem dropEvents_of_tidy {node : Decorated} (tidy : node.Tidy) :
    dropEvents .standard node = [] := by
  have none : node.ownHangings.filter (fun hanging => hanging.IsDropped) = [] := by
    rw [List.filter_eq_nil_iff]
    intro hanging mem
    obtain ⟨entry, inside, rfl⟩ := List.mem_map.mp mem
    have held := mem_heldAnchors_iff.mp (tidy entry inside).2
    simp [Hanging.IsDropped, held]
  rw [dropEvents_standard, none, List.map_nil]

/-- Checking nodes reports what checking one of them would. -/
theorem exists_mem_dropEvents {registry : Registry} {nodes : List Decorated} {event : Event}
    (mem : event ∈ (audit registry nodes).events) :
    ∃ node ∈ nodes, event ∈ dropEvents registry node := by
  induction nodes with
  | nil => cases mem
  | cons node nodes ih =>
    rw [audit] at mem
    cases fault : SlotTree.fault? registry node with
    | some error =>
      rw [fault] at mem
      cases mem
    | none =>
      rw [fault] at mem
      rcases List.mem_append.mp mem with mem | mem
      · exact ⟨node, List.mem_cons_self, mem⟩
      · obtain ⟨other, inside, found⟩ := ih mem
        exact ⟨other, List.mem_cons_of_mem _ inside, found⟩

theorem not_mem_restore_events {tree : DecoratedTree}
    (tidy : ∀ node ∈ tree.root.preorder, Decorated.Tidy node) (kind : NodeKind) (anchor : Anchor) :
    Event.dropped kind anchor ∉ (tree.restore .standard).events := by
  have silent : Event.dropped kind anchor ∉ (audit .standard tree.root.preorder).events := by
    intro mem
    obtain ⟨node, inside, found⟩ := exists_mem_dropEvents mem
    rw [dropEvents_of_tidy (tidy node inside)] at found
    cases found
  rw [DecoratedTree.restore]
  cases (audit .standard tree.root.preorder).result with
  | error error => exact silent
  | ok done => simpa using silent

/-- **Nothing is dropped in silence.** The trivia groups of an accepted tree are those of its
comment table and those of the dropped decorations, which are the non-empty ones on anchors
that hold nothing.  There is one warning for each of these, and each anchor of a node has one
decoration at most.

**Texts need no warning.** All decorations of the tree of a text are non-empty and hang on
anchors that hold something, so restoring that tree warns about nothing. -/
theorem dropped_with_warning :
    (∀ (tree : DecoratedTree) (restored : Restored),
      (tree.restore .standard).result = .ok restored →
        (tree.root.hangings.flatMap Hanging.groups).Perm
          (restored.comments.map groupOfRow ++ tree.root.dropped.flatMap Hanging.groups) ∧
        (tree.restore .standard).events = tree.root.dropped.map Hanging.warning ++
          [.restored restored.positions.length restored.comments.length] ∧
        ∀ node ∈ tree.root.preorder, ((ownHangings node).map Hanging.anchor).Nodup) ∧
    ∀ text (resolver : LineResolver), resolver.Indexes text → (parse text).diagnostics = [] →
      ∃ tree, decorateWith resolver text = .ok tree ∧
      (∀ kind anchor, Event.dropped kind anchor ∉ (tree.restore .standard).events) ∧
      ∀ node ∈ tree.root.preorder, ∀ entry ∈ node.info.entries,
        entry.2.isEmpty = false ∧ Decorated.Holds node entry.1 := by
  constructor
  · intro tree restored accepted
    refine ⟨restored_groups_perm accepted, restore_events accepted, fun node _ => ?_⟩
    simpa [ownHangings, Function.comp_def] using node.info.distinct
  · intro text resolver indexes clean
    obtain ⟨assignments, -, decorated⟩ := exists_decorate clean
    rw [← decorateWith_eq indexes] at decorated
    have kinded := kinded_parse clean
    generalize (parse text).tree = source at decorated kinded
    have tidy := tidy_rebuild source.root (CommentGap.decorations none assignments) kinded
    refine ⟨_, decorated, fun kind anchor => not_mem_restore_events tidy kind anchor, ?_⟩
    intro node mem entry found
    exact (tidy node mem entry found).imp_right mem_heldAnchors_iff.mp

/-- A call with one comment that has a place, and trivia on an anchor that is empty, on one that
has a list, and on one that calls do not have. -/
def lostComments : DecoratedTree :=
  let hang (anchor : Anchor) (text : String) (tree : Decorated) : Decorated :=
    tree.modifyDecoration anchor fun _ => ⟨[], [.comment .sameLine text]⟩
  ⟨hang .lparen "/* kept */" (hang .ellipsis "/* lost */" (hang .args "/* in a list */"
    (hang .body "/* foreign */" (.call (.ident "f") [.ident "a"])))), .empty⟩

/-- A text with comments in front of and behind tokens. -/
def commentedArgument : String :=
  "package p\n\n// doc\nvar x = f(a /* behind */)\n"

theorem dropped_with_warning_lostComments :
    (lostComments.restore .standard).result = .ok (lostComments.place .standard) ∧
      (lostComments.restore .standard).events =
        [.dropped .callExpr .body, .dropped .callExpr .args, .dropped .callExpr .ellipsis,
         .restored 11 1] ∧
      (parse commentedArgument).diagnostics = [] ∧
      ∃ tree, decorate commentedArgument = .ok tree ∧
        ∀ kind anchor, Event.dropped kind anchor ∉ (tree.restore .standard).events := by
  obtain ⟨restoring, decorating⟩ := dropped_with_warning
  have accepted : (lostComments.restore .standard).result =
      .ok (lostComments.place .standard) :=
    restore_eq_ok_iff.mpr ⟨by decide +kernel, rfl⟩
  have clean : (parse commentedArgument).diagnostics = [] := by decide +kernel
  obtain ⟨tree, decorated, silent, -⟩ := decorating commentedArgument _ (indexes_ofText _) clean
  refine ⟨accepted, ?_, clean, tree, decorated, silent⟩
  rw [(restoring _ _ accepted).2.1]
  decide +kernel

end GoTrivia

import GoTrivia.Proofs.Grammar.GrowingStatements
import GoTrivia.Proofs.Tree.Erasing
import GoTrivia.Tree.Path

/-!
# Nodes of a grown tree

What is allowed at a place is handed down, so every node of a grown tree has grown itself: the
trees in its slots may stand where they are, and its lists have the separators that their
shapes ask for.
-/

set_option autoImplicit false

namespace GoTrivia

/-- How many elements of a list stand in front of the subtree. -/
def PathStep.index : PathStep → Nat
  | child _ => 0
  | element _ index => index

namespace SlotTree

variable {ν τ σ : Type} {tree node : SlotTree ν τ σ}

/-- What is in a list of trees is in one of them. -/
theorem exists_of_mem_preorderElements {trees : List (SlotTree ν τ σ)}
    (mem : node ∈ preorderElements trees) : ∃ tree ∈ trees, node ∈ tree.preorder := by
  induction trees with
  | nil => exact absurd mem List.not_mem_nil
  | cons tree trees ih =>
    rcases List.mem_append.mp mem with inside | behind
    · exact ⟨tree, List.mem_cons_self, inside⟩
    · obtain ⟨other, mem, inside⟩ := ih behind
      exact ⟨other, List.mem_cons_of_mem _ mem, inside⟩

/-- What is in a list of slots is in a tree of one of them. -/
theorem exists_of_mem_preorderSlots {slots : List (Slot ν τ σ)}
    (mem : node ∈ preorderSlots slots) :
    ∃ slot ∈ slots, ∃ tree ∈ slot.trees, node ∈ tree.preorder := by
  induction slots with
  | nil => exact absurd mem List.not_mem_nil
  | cons slot slots ih =>
    rw [preorderSlots_cons] at mem
    rcases List.mem_append.mp mem with here | behind
    · refine ⟨slot, List.mem_cons_self, ?_⟩
      cases slot with
      | token content => simp [preorderSlots] at here
      | child content =>
        cases content with
        | none => simp [preorderSlots] at here
        | some child => exact ⟨child, by simp [Slot.trees], by simpa [preorderSlots] using here⟩
      | list elements separators =>
        have inside : node ∈ preorderElements elements := by simpa [preorderSlots] using here
        exact exists_of_mem_preorderElements inside
    · obtain ⟨other, mem, inside⟩ := ih behind
      exact ⟨other, List.mem_cons_of_mem _ mem, inside⟩

/-- The slot of an anchor stands where the shape has the anchor. -/
theorem exists_of_slot? {anchor : Anchor} {slot : Slot ν τ σ}
    (found : tree.slot? anchor = some slot) : ∃ shape, shape.anchor = anchor ∧
      (shape, slot) ∈ (standardShape tree.kind).anchors.zip tree.slots := by
  obtain ⟨index, indexed, found⟩ := Option.bind_eq_some_iff.mp found
  obtain ⟨inside, isAnchor, -⟩ := List.findIdx?_eq_some_iff_getElem.mp indexed
  refine ⟨(standardShape tree.kind).anchors[index], eq_of_beq isAnchor, ?_⟩
  refine List.mem_of_getElem? (i := index) ?_
  rw [List.getElem?_zip_eq_some]
  exact ⟨List.getElem?_eq_getElem inside, found⟩

/-- What is one step down stands in a slot of the anchor. -/
theorem exists_of_step? {step : PathStep} (found : tree.step? step = some node) :
    ∃ pair ∈ (standardShape tree.kind).anchors.zip tree.slots, pair.1.anchor = step.anchor ∧
      pair.2.trees[step.index]? = some node := by
  have slotted : ∃ slot, tree.slot? step.anchor = some slot ∧
      slot.trees[step.index]? = some node := by
    cases step with
    | child anchor =>
      simp only [step?, child?] at found
      split at found
      · next child isChild => exact ⟨_, isChild, by simp [Slot.trees, found, PathStep.index]⟩
      · cases found
    | element anchor index =>
      simp only [step?, elements, elements?] at found
      split at found
      · next elements separators isList => exact ⟨_, isList, found⟩
      · simp at found
  obtain ⟨slot, isSlot, isTree⟩ := slotted
  obtain ⟨shape, isAnchor, inside⟩ := exists_of_slot? isSlot
  exact ⟨_, inside, isAnchor, isTree⟩

end SlotTree

namespace Grammar

variable {whole : List Token} {count : Nat} {place : Place} {least : Nat} {tree node : Positional}

/-! ## Slots -/

/-- The slots of a grown tree are filled. -/
theorem Grown.fills (grown : Grown whole count place least tree) :
    Fills whole count place tree.kind (standardShape tree.kind).anchors tree.slots := by
  cases grown with
  | operator binds atLeast left right =>
    have here := Nat.le_refl count
    exact .cons (.child left here (Nat.zero_le _)) (.cons .token
      (.cons (.child right here (Nat.zero_le _)) .nil))
  | node other unnamed unbraced lined counted laid below =>
    exact List.forall₂_iff_zip.mpr ⟨counted, fun mem => ⟨laid _ mem, below _ mem⟩⟩

/-- What is one step down from a grown tree may stand there. -/
theorem Grown.step {step : PathStep} (grown : Grown whole count place least tree)
    (found : tree.step? step = some node) :
    Grown whole count (placeAt place tree.kind step.anchor step.index)
      (leastAt tree.kind step.anchor) node := by
  obtain ⟨-, each⟩ := List.forall₂_iff_zip.mp grown.fills
  obtain ⟨pair, mem, isAnchor, inside⟩ := SlotTree.exists_of_step? found
  rw [← isAnchor]
  exact (each mem).below _ node inside

/-! ## Lines -/

theorem Place.isLine_upTo (place : Place) {extent : Extent} (other : extent ≠ .line) :
    (place.upTo extent).isLine = false := by
  cases place with
  | type => rfl
  | code _ literals =>
    cases extent with
    | operand | whole => rfl
    | line => exact (other rfl).elim

theorem Place.isLine_bracketed (place : Place) : place.bracketed.isLine = false := by
  cases place <;> rfl

/-- Lines stand in blocks. -/
theorem eq_list_of_isLine {place : Place} {kind : NodeKind} {anchor : Anchor} {index : Nat}
    (isLine : (placeAt place kind anchor index).isLine = true) :
    kind = .blockStmt ∧ anchor = .list := by
  have operand : (place.upTo .operand).isLine = false := place.isLine_upTo nofun
  have whole : (place.upTo .whole).isLine = false := place.isLine_upTo nofun
  have bracketed := place.isLine_bracketed
  unfold placeAt at isLine
  split at isLine
  · cases isLine
  · split at isLine <;> first
      | exact ⟨rfl, rfl⟩
      | cases isLine
      | cases isLine.symm.trans operand
      | cases isLine.symm.trans whole
      | cases isLine.symm.trans bracketed

/-! ## All nodes -/

/-- Every node of a grown tree has grown. -/
theorem Grown.nodes (grown : Grown whole count place least tree) :
    ∀ node ∈ tree.preorder, ∃ place' least', Grown whole count place' least' node := by
  induction grown with
  | operator binds atLeast left right leftIh rightIh =>
    intro node mem
    simp only [SlotTree.preorder, childSlot, tokenSlot, SlotTree.preorderSlots, List.append_nil,
      List.mem_cons, List.mem_append] at mem
    rcases mem with rfl | inside | inside
    · exact ⟨_, _, .operator binds atLeast left right⟩
    · exact leftIh node inside
    · exact rightIh node inside
  | @node place least kind span slots other unnamed unbraced lined counted laid below ih =>
    intro node mem
    rw [SlotTree.preorder] at mem
    rcases List.mem_cons.mp mem with rfl | inside
    · exact ⟨_, least, .node other unnamed unbraced lined counted laid below⟩
    · obtain ⟨slot, mem, tree, inSlot, inside⟩ := SlotTree.exists_of_mem_preorderSlots inside
      rw [← List.map_snd_zip (Nat.le_of_eq counted.symm)] at mem
      obtain ⟨pair, paired, rfl⟩ := List.mem_map.mp mem
      obtain ⟨index, found⟩ := List.mem_iff_getElem?.mp inSlot
      exact ih pair paired index tree found node inside

end Grammar

/-- Every node of the tree of a text has grown from its tokens. -/
theorem grown_of_mem (text : String) : ∀ node ∈ (parse text).tree.root.preorder,
    ∃ place least,
      Grammar.Grown (lex text).tokens (parse text).diagnostics.length place least node :=
  (grown_root text).nodes

end GoTrivia

import GoTrivia.Proofs.Restoring.Accepting
import GoTrivia.Proofs.Tree.Erasing
import GoTrivia.Proofs.Tree.Faults

/-!
# Checking on the way

A tree is checked as a whole before it is placed.  One can as well check each node when the walk
that places the tree gets there, before anything of the node is placed, and stop at the first
one that does not fit.  It makes no difference: what was placed up to there is lost.
-/

set_option autoImplicit false

namespace GoTrivia

namespace Restore

/-! ## The walk -/

/-- A walk that hands out offsets and may stop at a node that does not fit. -/
abbrev CheckedSynth := StateT Synthesis (Except TreeError)

/-- A walk that stops nowhere. -/
def unchecked {α : Type} (walk : Synth α) : CheckedSynth α := fun state => .ok (walk.run state)

/-- Stops at a node that does not fit. -/
def checkNode (registry : Registry) (node : Decorated) : CheckedSynth Unit :=
  match SlotTree.fault? registry node with
  | some error => throw error
  | none => return

mutual
/-- Checks a node, then places it up to its finish. -/
def checkedEnclosed (registry : Registry) : Decorated → CheckedSynth Positional
  | .node kind decorations slots => do
    checkNode registry (.node kind decorations slots)
    let start ← unchecked (placePoint kind decorations .start)
    let slots ← checkedSlots registry kind decorations (registry.anchorsOf kind) slots
    let stop ← unchecked (placeAnchor kind decorations .finish)
    return .node kind ⟨start, stop⟩ slots

/-- Places the slots of a node, with the nodes below checked. -/
def checkedSlots (registry : Registry) (kind : NodeKind) (decorations : Decorations)
    (shapes : List AnchorShape) : List DecoratedSlot → CheckedSynth (List PositionalSlot)
  | [] => return []
  | slot :: slots => do
    match shapes with
    | [] => return []
    | shape :: shapes =>
      let slot ← checkedSlot registry kind decorations shape slot
      let slots ← checkedSlots registry kind decorations shapes slots
      return slot :: slots

/-- Places one slot, with the nodes below checked. -/
def checkedSlot (registry : Registry) (kind : NodeKind) (decorations : Decorations)
    (shape : AnchorShape) : DecoratedSlot → CheckedSynth PositionalSlot
  | .token none => return .token none
  | .token (some text) => do
    let offset ← unchecked (placePoint kind decorations shape.anchor)
    return .token (some ⟨text, .point offset⟩)
  | .child none => return .child none
  | .child (some child) => do
    let placed ← checkedEnclosed registry child
    unchecked (placeAfter child.info .finish)
    let _ ← unchecked (placePoint kind decorations shape.anchor)
    return .child (some placed)
  | .list elements _ => do
    let (elements, separators) ← checkedElements registry (isSeparated shape.slot) elements
    return .list elements separators

/-- Places list elements, each checked before it is placed. -/
def checkedElements (registry : Registry) (separated : Bool) :
    List Decorated → CheckedSynth (List Positional × List Span)
  | [] => return ([], [])
  | tree :: trees => do
    let placed ← checkedEnclosed registry tree
    if separated then
      let offset ← unchecked (place .sameLine .separator)
      unchecked (placeAfter tree.info .finish)
      let (placedTrees, separators) ← checkedElements registry separated trees
      return (placed :: placedTrees, .point offset :: separators)
    else
      unchecked (placeAfter tree.info .finish)
      let (placedTrees, separators) ← checkedElements registry separated trees
      return (placed :: placedTrees, separators)
end

/-- Places a tree with the trivia behind it, with all nodes checked on the way. -/
def checkedTree (registry : Registry) (tree : Decorated) : CheckedSynth Positional := do
  let placed ← checkedEnclosed registry tree
  unchecked (placeAfter tree.info .finish)
  return placed

/-! ## The first fault decides -/

variable {registry : Registry} {α β : Type}

/-- A walk that checks nodes one after the other does what a walk without checks does, unless
one of the nodes does not fit.  Then the first one that does not fit stops it. -/
def Checks (registry : Registry) (walk : CheckedSynth α) (nodes : List Decorated)
    (plain : Synth α) : Prop :=
  ∀ state, walk.run state =
    SlotTree.unlessFault (SlotTree.fault? registry) nodes (plain.run state)

namespace Checks

theorem pure (value : α) : Checks registry (Pure.pure value) [] (Pure.pure value) := fun _ => rfl

theorem unchecked (walk : Synth α) : Checks registry (unchecked walk) [] walk := fun _ => rfl

/-- One walk after the other checks the nodes of both. -/
theorem bind {walk : CheckedSynth α} {next : α → CheckedSynth β} {nodes nodes' : List Decorated}
    {plain : Synth α} {plainNext : α → Synth β} (first : Checks registry walk nodes plain)
    (rest : ∀ value, Checks registry (next value) nodes' (plainNext value)) :
    Checks registry (walk >>= next) (nodes ++ nodes') (plain >>= plainNext) := by
  intro state
  rw [StateT.run_bind, first state]
  exact SlotTree.unlessFault_bind (rest _ _)

/-- What stops nowhere checks nothing. -/
theorem before {walk : Synth α} {next : α → CheckedSynth β} {nodes : List Decorated}
    {plainNext : α → Synth β} (rest : ∀ value, Checks registry (next value) nodes (plainNext value)) :
    Checks registry (Restore.unchecked walk >>= next) nodes (walk >>= plainNext) :=
  bind (unchecked walk) rest

theorem andThen {walk : CheckedSynth α} {next : α → CheckedSynth β} {nodes : List Decorated}
    {plain : Synth α} {plainNext : α → Synth β} (first : Checks registry walk nodes plain)
    (rest : ∀ value, Checks registry (next value) [] (plainNext value)) :
    Checks registry (walk >>= next) nodes (plain >>= plainNext) :=
  List.append_nil nodes ▸ bind first rest

/-- Behind a check one may rely on the node to fit. -/
theorem checkNode {node : Decorated} {next : CheckedSynth α} {nodes : List Decorated}
    {plain : Synth α}
    (rest : SlotTree.fault? registry node = none → Checks registry next nodes plain) :
    Checks registry (checkNode registry node >>= fun _ => next) (node :: nodes) plain := by
  intro state
  rw [StateT.run_bind, SlotTree.unlessFault_cons, Restore.checkNode]
  cases fine : SlotTree.fault? registry node with
  | some error => rfl
  | none => exact rest fine state

end Checks

mutual
theorem checks_enclosed : ∀ tree : Decorated,
    Checks registry (checkedEnclosed registry tree) tree.preorder (enclosed registry tree)
  | .node kind decorations slots => by
      rw [SlotTree.preorder]
      unfold checkedEnclosed enclosed
      refine .checkNode fun fine => .before fun start => .andThen ?_ fun placed =>
        .before fun stop => .pure _
      exact checks_slots kind decorations _ slots (Nat.le_of_eq (SlotTree.length_of_fault? fine).symm)

theorem checks_slots (kind : NodeKind) (decorations : Decorations) :
    ∀ (shapes : List AnchorShape) (slots : List DecoratedSlot), slots.length ≤ shapes.length →
      Checks registry (checkedSlots registry kind decorations shapes slots)
        (SlotTree.preorderSlots slots) (placeSlots registry kind decorations shapes slots)
  | shapes, [], _ => by
      unfold checkedSlots placeSlots
      exact .pure _
  | [], slot :: slots, enough => absurd enough (Nat.not_succ_le_zero _)
  | shape :: shapes, slot :: slots, enough => by
      rw [SlotTree.preorderSlots_cons]
      unfold checkedSlots placeSlots
      exact .bind (checks_slot kind decorations shape slot) fun placed =>
        .andThen (checks_slots kind decorations shapes slots (Nat.le_of_succ_le_succ enough))
          fun rest => .pure _

theorem checks_slot (kind : NodeKind) (decorations : Decorations) (shape : AnchorShape) :
    ∀ slot : DecoratedSlot, Checks registry (checkedSlot registry kind decorations shape slot)
      (SlotTree.preorderSlots [slot]) (placeSlot registry kind decorations shape slot)
  | .token none => by
      unfold checkedSlot placeSlot
      exact .pure _
  | .token (some text) => by
      unfold checkedSlot placeSlot
      exact .before fun offset => .pure _
  | .child none => by
      unfold checkedSlot placeSlot
      exact .pure _
  | .child (some child) => by
      rw [SlotTree.preorderSlots, SlotTree.preorderSlots, List.append_nil]
      unfold checkedSlot placeSlot
      exact .andThen (checks_enclosed child) fun placed =>
        .before fun _ => .before fun _ => .pure _
  | .list elements _ => by
      rw [SlotTree.preorderSlots, SlotTree.preorderSlots, List.append_nil]
      unfold checkedSlot placeSlot
      exact .andThen (checks_elements _ elements) fun placed => .pure _

theorem checks_elements (separated : Bool) : ∀ trees : List Decorated,
    Checks registry (checkedElements registry separated trees) (SlotTree.preorderElements trees)
      (placeElements registry separated trees)
  | [] => by
      unfold checkedElements placeElements
      exact .pure _
  | tree :: trees => by
      have here := checks_enclosed tree
      have there := checks_elements separated trees
      rw [SlotTree.preorderElements]
      unfold checkedElements placeElements
      cases separated with
      | false => exact here.bind fun placed => .before fun _ => there.andThen fun rest => .pure _
      | true => exact here.bind fun placed => .before fun offset => .before fun _ =>
          there.andThen fun rest => .pure _
end

theorem checks_tree (tree : Decorated) :
    Checks registry (checkedTree registry tree) tree.preorder (placeTree registry tree) :=
  (checks_enclosed tree).andThen fun _ => .before fun _ => .pure _

theorem result_audit (nodes : List Decorated) :
    (audit registry nodes).result = SlotTree.unlessFault (SlotTree.fault? registry) nodes () := by
  induction nodes with
  | nil => rfl
  | cons node nodes ih =>
    unfold audit
    rw [SlotTree.unlessFault_cons]
    cases SlotTree.fault? registry node with
    | some error => rfl
    | none => exact ih

end Restore

open Restore

/-- A tree is placed, unless one of its nodes has a fault. -/
theorem result_restore (tree : DecoratedTree) (registry : Registry) :
    (tree.restore registry).result =
      SlotTree.unlessFault (SlotTree.fault? registry) tree.root.preorder (tree.place registry) := by
  have audited : (audit registry tree.root.preorder).result = _ := result_audit _
  unfold DecoratedTree.restore
  unfold SlotTree.unlessFault at audited ⊢
  cases first : tree.root.preorder.findSome? (SlotTree.fault? registry) <;>
    simp only [audited, first]

/-- **Checking on the way.** A tree is restored, or refused, just as if each node were checked
when the walk gets there. -/
theorem result_restore_eq_checkedTree (tree : DecoratedTree) (registry : Registry) :
    (tree.restore registry).result =
      ((checkedTree registry tree.root).run ⟨0, #[]⟩).map fun (root, state) =>
        ⟨root, state.log.toList, tree.metadata⟩ := by
  rw [checks_tree tree.root ⟨0, #[]⟩, result_restore]
  unfold SlotTree.unlessFault
  cases tree.root.preorder.findSome? (SlotTree.fault? registry) <;> rfl

end GoTrivia

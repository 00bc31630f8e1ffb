import GoTrivia.Proofs.Decorating.Respanning
import GoTrivia.Proofs.Tree.Faults

/-!
# Checking twice

The nodes of a source tree are checked before anything else is done with the tree.  One can as
well check each node when the tree is laid out flat, and once more when it is built up again.
The first check stops where checking all nodes would.  The second one finds nothing any more,
whatever the decorations are.
-/

set_option autoImplicit false

namespace GoTrivia

namespace Decorate

/-! ## The walks -/

/-- Stops at a node that is not known or whose slots are not of the right kinds. -/
def checkKinds (registry : Registry) (node : Positional) : Except TreeError Unit :=
  match SlotTree.kindFault? registry node with
  | some error => .error error
  | none => .ok ()

mutual
/-- The fragments of a tree, each node checked first. -/
def checkedFragments (registry : Registry) : Positional → Except TreeError (List Fragment)
  | .node kind span slots => do
    checkKinds registry (.node kind span slots)
    let fragments ← checkedFragmentsSlots registry slots
    return .point (.point span.start) :: (fragments ++ [.point (.point span.stop)])

/-- The fragments of slots, with the nodes below checked. -/
def checkedFragmentsSlots (registry : Registry) :
    List PositionalSlot → Except TreeError (List Fragment)
  | [] => return []
  | .token none :: slots => checkedFragmentsSlots registry slots
  | .token (some lexeme) :: slots => do
    return .point lexeme.span :: (← checkedFragmentsSlots registry slots)
  | .child none :: slots => checkedFragmentsSlots registry slots
  | .child (some child) :: slots => do
    let fragments ← checkedFragments registry child
    return fragments ++
      .point (.point (Positional.span child).stop) :: (← checkedFragmentsSlots registry slots)
  | .list elements separators :: slots => do
    let fragments ← checkedFragmentsElements registry separators elements
    return fragments ++ (← checkedFragmentsSlots registry slots)

/-- The fragments of list elements, each checked first. -/
def checkedFragmentsElements (registry : Registry) (separators : List Span) :
    List Positional → Except TreeError (List Fragment)
  | [] => return []
  | tree :: trees => do
    let fragments ← checkedFragments registry tree
    return fragments ++ (separators.head?.map Fragment.separator).toList ++
      (← checkedFragmentsElements registry (separators.drop 1) trees)
end

mutual
/-- Builds up a decorated tree, each node checked first. -/
def checkedRebuild (registry : Registry) :
    Positional → List Decoration → Except TreeError (Decorated × List Decoration)
  | .node kind span slots, supply => do
    checkKinds registry (.node kind span slots)
    let (decorations, supply) := attach .empty .start supply
    let (slots, decorations, supply) ←
      checkedRebuildSlots registry (registry.anchorsOf kind) slots decorations supply
    let (decorations, supply) := attach decorations .finish supply
    return (.node kind decorations slots, supply)

/-- Builds up slots, with the nodes below checked. -/
def checkedRebuildSlots (registry : Registry) (shapes : List AnchorShape) :
    List PositionalSlot → Decorations → List Decoration →
      Except TreeError (List DecoratedSlot × Decorations × List Decoration)
  | [], decorations, supply => return ([], decorations, supply)
  | slot :: slots, decorations, supply => do
    match shapes with
    | [] => return ([], decorations, supply)
    | shape :: shapes =>
      let (slot, decorations, supply) ←
        checkedRebuildSlot registry shape.anchor slot decorations supply
      let (slots, decorations, supply) ←
        checkedRebuildSlots registry shapes slots decorations supply
      return (slot :: slots, decorations, supply)

/-- Builds up one slot, with the nodes below checked. -/
def checkedRebuildSlot (registry : Registry) (anchor : Anchor) :
    PositionalSlot → Decorations → List Decoration →
      Except TreeError (DecoratedSlot × Decorations × List Decoration)
  | .token none, decorations, supply => return (.token none, decorations, supply)
  | .token (some lexeme), decorations, supply =>
    let (decorations, supply) := attach decorations anchor supply
    return (.token (some lexeme.text), decorations, supply)
  | .child none, decorations, supply => return (.child none, decorations, supply)
  | .child (some child), decorations, supply => do
    let (child, supply) ← checkedRebuild registry child supply
    let (decorations, supply) := attach decorations anchor supply
    return (.child (some child), decorations, supply)
  | .list elements _, decorations, supply => do
    let (elements, supply) ← checkedRebuildElements registry elements supply
    return (.list elements (), decorations, supply)

/-- Builds up list elements, each checked first. -/
def checkedRebuildElements (registry : Registry) :
    List Positional → List Decoration → Except TreeError (List Decorated × List Decoration)
  | [], supply => return ([], supply)
  | tree :: trees, supply => do
    let (tree, supply) ← checkedRebuild registry tree supply
    let (trees, supply) ← checkedRebuildElements registry trees supply
    return (tree :: trees, supply)
end

/-! ## The first check -/

variable {registry : Registry}

section Laying

open SlotTree (unlessFault unlessFault_bind unlessFault_map unlessFault_cons)

variable {α β γ : Type}

/-- What is checked node by node is what it would be without checks, unless a node has a fault. -/
abbrev ChecksKinds (registry : Registry) (checked : Except TreeError α) (nodes : List Positional)
    (value : α) : Prop :=
  checked = unlessFault (SlotTree.kindFault? registry) nodes value

/-- Two parts are checked one after the other, and then put together. -/
theorem ChecksKinds.both {first : Except TreeError α} {second : Except TreeError β}
    {nodes nodes' : List Positional} {value : α} {value' : β} (join : α → β → γ)
    (here : ChecksKinds registry first nodes value)
    (there : ChecksKinds registry second nodes' value') :
    ChecksKinds registry (first >>= fun value => second >>= fun value' => pure (join value value'))
      (nodes ++ nodes') (join value value') := by
  subst here there
  exact unlessFault_bind (unlessFault_map (join value))

theorem ChecksKinds.map {first : Except TreeError α} {nodes : List Positional} {value : α}
    (join : α → γ) (here : ChecksKinds registry first nodes value) :
    ChecksKinds registry (first >>= fun value => pure (join value)) nodes (join value) := by
  subst here
  exact unlessFault_map join

mutual
/-- Laying a tree out flat stops at the first node with a fault. -/
theorem checks_fragments : ∀ tree : Positional,
    ChecksKinds registry (checkedFragments registry tree) tree.preorder tree.fragments
  | .node kind span slots => by
      have below := (checks_fragmentsSlots slots).map fun fragments =>
        Fragment.point (.point span.start) :: (fragments ++ [.point (.point span.stop)])
      rw [checkedFragments, SlotTree.preorder, Positional.fragments, ChecksKinds, unlessFault_cons,
        ← below, checkKinds]
      cases SlotTree.kindFault? registry (.node kind span slots : Positional) <;> rfl

theorem checks_fragmentsSlots : ∀ slots : List PositionalSlot,
    ChecksKinds registry (checkedFragmentsSlots registry slots) (SlotTree.preorderSlots slots)
      (Positional.fragmentsSlots slots)
  | [] => rfl
  | .token none :: slots => checks_fragmentsSlots slots
  | .token (some lexeme) :: slots => (checks_fragmentsSlots slots).map (Fragment.point lexeme.span :: ·)
  | .child none :: slots => checks_fragmentsSlots slots
  | .child (some child) :: slots =>
      .both (fun first rest => first ++ Fragment.point (.point (Positional.span child).stop) :: rest)
        (checks_fragments child) (checks_fragmentsSlots slots)
  | .list elements separators :: slots =>
      .both (· ++ ·) (checks_fragmentsElements separators elements) (checks_fragmentsSlots slots)

theorem checks_fragmentsElements : ∀ (separators : List Span) (trees : List Positional),
    ChecksKinds registry (checkedFragmentsElements registry separators trees)
      (SlotTree.preorderElements trees) (Positional.fragmentsElements separators trees)
  | _, [] => rfl
  | separators, tree :: trees =>
      .both (fun first rest => first ++ (separators.head?.map Fragment.separator).toList ++ rest)
        (checks_fragments tree) (checks_fragmentsElements (separators.drop 1) trees)
end

end Laying

/-! ## The second check -/

mutual
/-- Building up a tree whose nodes were checked before stops nowhere. -/
theorem checkedRebuild_eq : ∀ (tree : Positional) (supply : List Decoration),
    Kinded registry tree.preorder →
      checkedRebuild registry tree supply = .ok (rebuild registry tree supply)
  | .node kind span slots, supply, kinded => by
      rw [SlotTree.preorder] at kinded
      obtain ⟨here, below⟩ := List.forall_mem_cons.mp kinded
      rw [checkedRebuild, checkKinds, here]
      show (checkedRebuildSlots _ _ _ _ _ >>= _) = _
      rw [checkedRebuildSlots_eq _ slots _ _ below]
      rfl

theorem checkedRebuildSlots_eq : ∀ (shapes : List AnchorShape) (slots : List PositionalSlot)
    (decorations : Decorations) (supply : List Decoration),
    Kinded registry (SlotTree.preorderSlots slots) →
      checkedRebuildSlots registry shapes slots decorations supply =
        .ok (rebuildSlots registry shapes slots decorations supply)
  | _, [], _, _, _ => by
      unfold checkedRebuildSlots rebuildSlots
      rfl
  | [], _ :: _, _, _, _ => rfl
  | shape :: shapes, slot :: slots, decorations, supply, kinded => by
      rw [SlotTree.preorderSlots_cons] at kinded
      obtain ⟨first, below⟩ := List.forall_mem_append.mp kinded
      unfold checkedRebuildSlots
      dsimp only
      rw [checkedRebuildSlot_eq shape.anchor slot decorations supply first]
      show (checkedRebuildSlots _ _ _ _ _ >>= _) = _
      rw [checkedRebuildSlots_eq shapes slots _ _ below]
      rfl

theorem checkedRebuildSlot_eq (anchor : Anchor) : ∀ (slot : PositionalSlot)
    (decorations : Decorations) (supply : List Decoration),
    Kinded registry (SlotTree.preorderSlots [slot]) →
      checkedRebuildSlot registry anchor slot decorations supply =
        .ok (rebuildSlot registry anchor slot decorations supply)
  | .token none, _, _, _ => rfl
  | .token (some _), _, _, _ => rfl
  | .child none, _, _, _ => rfl
  | .child (some child), decorations, supply, kinded => by
      rw [SlotTree.preorderSlots, SlotTree.preorderSlots, List.append_nil] at kinded
      rw [checkedRebuildSlot, checkedRebuild_eq child supply kinded]
      rfl
  | .list elements _, decorations, supply, kinded => by
      rw [SlotTree.preorderSlots, SlotTree.preorderSlots, List.append_nil] at kinded
      rw [checkedRebuildSlot, checkedRebuildElements_eq elements supply kinded]
      rfl

theorem checkedRebuildElements_eq : ∀ (trees : List Positional) (supply : List Decoration),
    Kinded registry (SlotTree.preorderElements trees) →
      checkedRebuildElements registry trees supply = .ok (rebuildElements registry trees supply)
  | [], _, _ => by
      unfold checkedRebuildElements rebuildElements
      rfl
  | tree :: trees, supply, kinded => by
      rw [SlotTree.preorderElements] at kinded
      obtain ⟨first, rest⟩ := List.forall_mem_append.mp kinded
      rw [checkedRebuildElements, checkedRebuild_eq tree supply first]
      show (checkedRebuildElements _ _ _ >>= _) = _
      rw [checkedRebuildElements_eq trees _ rest]
      rfl
end

end Decorate

/-! ## Decorating -/

/-- Decorates a source tree, with each node checked when the tree is laid out flat and again when
it is built up. -/
def SourceTree.checkedDecorate (source : SourceTree) (registry : Registry)
    (resolver : LineResolver) : Except TreeError DecoratedTree := do
  let fragments ← Decorate.checkedFragments registry (source.resolved resolver)
  let assignments ←
    (CommentGap.assignAll resolver (CommentGap.ofFragments none fragments source.comments)).result
  let (root, _) ←
    Decorate.checkedRebuild registry source.root (CommentGap.decorations none assignments)
  return ⟨root, source.metadata⟩

/-- **Checking twice.** A source tree is decorated, or refused, just as if each node were checked
when the tree is laid out flat and again when it is built up. -/
theorem result_decorate_eq_checkedDecorate (source : SourceTree) (registry : Registry)
    (resolver : LineResolver) :
    (source.decorate registry resolver).result = source.checkedDecorate registry resolver := by
  have flat : Decorate.ChecksKinds registry _ _ _ :=
    Decorate.checks_fragments (source.resolved resolver)
  unfold SourceTree.decorate SourceTree.checkedDecorate
  rw [flat, SlotTree.unlessFault, SourceTree.resolved, Positional.findSome?_kindFault?_respan]
  cases found : source.root.preorder.findSome? (SlotTree.kindFault? registry) with
  | some error => rfl
  | none =>
    have kinded : Decorate.Kinded registry source.root.preorder := List.findSome?_eq_none_iff.mp found
    show Except.map _ (CommentGap.assignAll resolver _).result =
      ((CommentGap.assignAll resolver _).result >>= _)
    cases (CommentGap.assignAll resolver (CommentGap.ofFragments none
      (source.root.respan resolver.resolve).fragments source.comments)).result with
    | error error => rfl
    | ok assignments =>
      show _ = Decorate.checkedRebuild _ _ _ >>= _
      rw [Decorate.checkedRebuild_eq _ _ kinded]
      rfl

end GoTrivia

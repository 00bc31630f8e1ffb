import GoTrivia.Proofs.Printing.Walk
import GoTrivia.Proofs.Restoring.Accepting
import GoTrivia.Proofs.Restoring.Placement
import Mathlib.Data.List.Forall2

/-!
# The order of made-up positions

Placing a tree passes its trivia groups, its anchors and its list separators one after the
other.  `pass` lists what is passed on the decorated tree alone, before any of it has an
offset: an anchor stands between the groups in front of it and those behind it, a child in
front of the anchor that holds it, and the separator of a list element between the
element's finish and the trivia behind that finish.

**Offsets.** The log of a placed tree is this list with strictly ascending offsets.  So a
group in front of an anchor lies between whatever was placed last and the anchor, and a
group behind an anchor lies between the anchor and whatever is placed next.

**Spans.** The separators of the placed tree carry the offsets that the log has for them, and
so do its nodes at their ends and its tokens: going through the anchors of the placed tree in
order is going through the positions of the log.
-/

set_option autoImplicit false

namespace GoTrivia

open Restore

namespace Restore

/-- Something that is given an offset when it is passed. -/
inductive Passed
  | group (trivia : TriviaGroup)
  | anchor (kind : NodeKind) (anchor : Anchor)
  | separator
deriving DecidableEq, Repr

/-- The trivia group, if one was passed. -/
def Passed.group? : Passed → Option TriviaGroup
  | group trivia => some trivia
  | _ => none

/-- The trivia group of a row of the comment table. -/
def groupOfRow (entry : CommentEntry) : TriviaGroup := ⟨entry.spacing, entry.texts⟩

/-- A placed thing without its offset. -/
def Placed.passed : Placed → Passed
  | group entry => .group (groupOfRow entry)
  | anchor position => .anchor position.kind position.anchor
  | separator _ => .separator

/-- The offset of a placed separator. -/
def Placed.separator? : Placed → Option Nat
  | separator offset => some offset
  | _ => none

end Restore

/-! ## What is passed -/

namespace Decorated

/-- The trivia in front of an anchor and the anchor. -/
def passAnchor (kind : NodeKind) (decorations : Decorations) (anchor : Anchor) : List Passed :=
  (decorations.ofAnchor anchor).before.map .group ++ [.anchor kind anchor]

/-- An anchor with the trivia on both sides. -/
def passPoint (kind : NodeKind) (decorations : Decorations) (anchor : Anchor) : List Passed :=
  passAnchor kind decorations anchor ++ (decorations.ofAnchor anchor).after.map .group

mutual
/-- What is passed in a tree up to its finish, without the trivia behind it. -/
def pass (registry : Registry) : Decorated → List Passed
  | .node kind decorations slots =>
    passPoint kind decorations .start ++
      passSlots registry kind decorations (registry.anchorsOf kind) slots ++
      passAnchor kind decorations .finish

/-- What is passed in the slots of a node. -/
def passSlots (registry : Registry) (kind : NodeKind) (decorations : Decorations)
    (shapes : List AnchorShape) : List DecoratedSlot → List Passed
  | [] => []
  | slot :: slots =>
    match shapes with
    | [] => []
    | shape :: shapes =>
      passSlot registry kind decorations shape slot ++
        passSlots registry kind decorations shapes slots

/-- What is passed in one slot. -/
def passSlot (registry : Registry) (kind : NodeKind) (decorations : Decorations)
    (shape : AnchorShape) : DecoratedSlot → List Passed
  | .token none => []
  | .token (some _) => passPoint kind decorations shape.anchor
  | .child none => []
  | .child (some child) =>
    pass registry child ++ (trailing child).map .group ++ passPoint kind decorations shape.anchor
  | .list elements _ => passElements registry (isSeparated shape.slot) elements

/-- What is passed in list elements, with their separators if they have any. -/
def passElements (registry : Registry) (separated : Bool) : List Decorated → List Passed
  | [] => []
  | tree :: trees =>
    pass registry tree ++ (if separated then [.separator] else []) ++
      (trailing tree).map .group ++ passElements registry separated trees
end

/-- What is passed in a whole tree. -/
def fullPass (registry : Registry) (tree : Decorated) : List Passed :=
  pass registry tree ++ (trailing tree).map .group

end Decorated

namespace Positional

mutual
/-- The offsets of the separators of a tree, each behind its element. -/
def separatorOffsets : Positional → List Nat
  | .node _ _ slots => separatorOffsetsSlots slots

/-- The offsets of the separators in a list of slots. -/
def separatorOffsetsSlots : List PositionalSlot → List Nat
  | [] => []
  | .token _ :: slots => separatorOffsetsSlots slots
  | .child none :: slots => separatorOffsetsSlots slots
  | .child (some child) :: slots => separatorOffsets child ++ separatorOffsetsSlots slots
  | .list elements separators :: slots =>
    separatorOffsetsElements separators elements ++ separatorOffsetsSlots slots

/-- The offsets of the separators of list elements. -/
def separatorOffsetsElements (separators : List Span) : List Positional → List Nat
  | [] => []
  | tree :: trees =>
    separatorOffsets tree ++ (separators.head?.map Span.start).toList ++
      separatorOffsetsElements (separators.drop 1) trees
end

/-- An anchor of some node, with the span that the tree has there.  It has none for the anchor
of a child. -/
structure AnchorSpan where
  kind : NodeKind
  anchor : Anchor
  span : Option Span

/-- An anchor stands where its position says. -/
structure AnchorSpan.At (held : AnchorSpan) (position : AnchorPosition) : Prop where
  kind : held.kind = position.kind
  anchor : held.anchor = position.anchor
  span : ∀ span ∈ held.span, span = .point position.offset

mutual
/-- The anchors of a tree in order. -/
def anchorSpans (registry : Registry) : Positional → List AnchorSpan
  | .node kind span slots =>
    ⟨kind, .start, some (.point span.start)⟩ ::
      (anchorSpansSlots registry kind (registry.anchorsOf kind) slots ++
        [⟨kind, .finish, some (.point span.stop)⟩])

/-- The anchors of the slots of a node, with those below. -/
def anchorSpansSlots (registry : Registry) (kind : NodeKind) (shapes : List AnchorShape) :
    List PositionalSlot → List AnchorSpan
  | [] => []
  | slot :: slots =>
    match shapes with
    | [] => []
    | shape :: shapes =>
      anchorSpansSlot registry kind shape.anchor slot ++ anchorSpansSlots registry kind shapes slots

/-- The anchor of a slot, with those below. -/
def anchorSpansSlot (registry : Registry) (kind : NodeKind) (anchor : Anchor) :
    PositionalSlot → List AnchorSpan
  | .token none => []
  | .token (some lexeme) => [⟨kind, anchor, some lexeme.span⟩]
  | .child none => []
  | .child (some child) => anchorSpans registry child ++ [⟨kind, anchor, none⟩]
  | .list elements _ => anchorSpansElements registry elements

/-- The anchors of list elements. -/
def anchorSpansElements (registry : Registry) : List Positional → List AnchorSpan
  | [] => []
  | tree :: trees => anchorSpans registry tree ++ anchorSpansElements registry trees
end

end Positional

open Decorated Positional

variable {registry : Registry}

/-! ## Placing single things -/

namespace Restore

@[simp]
theorem map_passed_rows (groups : List TriviaGroup) (n : Nat) :
    (rows n groups).map (Placed.passed ∘ Placed.group) = groups.map .group := by
  induction groups generalizing n with
  | nil => rfl
  | cons group groups ih => simp only [rows, List.map_cons, ih]; rfl

@[simp]
theorem separator?_group (entry : CommentEntry) : (Placed.group entry).separator? = none := rfl

@[simp]
theorem separator?_anchor (position : AnchorPosition) :
    (Placed.anchor position).separator? = none := rfl

/-- Trivia groups are no positions. -/
theorem filterMap_position?_groups (entries : List CommentEntry) :
    (entries.map Placed.group).filterMap Placed.position? = [] := by
  simp [Placed.position?]

@[simp]
theorem map_passed_anchorPlaced (kind : NodeKind) (decorations : Decorations) (anchor : Anchor)
    (n : Nat) :
    (anchorPlaced kind decorations anchor n).map Placed.passed =
      passAnchor kind decorations anchor := by
  simp [anchorPlaced, passAnchor, Placed.passed]

@[simp]
theorem map_passed_pointPlaced (kind : NodeKind) (decorations : Decorations) (anchor : Anchor)
    (n : Nat) :
    (pointPlaced kind decorations anchor n).map Placed.passed =
      passPoint kind decorations anchor := by
  simp [pointPlaced, passPoint]

@[simp]
theorem separators_anchorPlaced (kind : NodeKind) (decorations : Decorations) (anchor : Anchor)
    (n : Nat) : (anchorPlaced kind decorations anchor n).filterMap Placed.separator? = [] := by
  simp [anchorPlaced]

@[simp]
theorem separators_pointPlaced (kind : NodeKind) (decorations : Decorations) (anchor : Anchor)
    (n : Nat) : (pointPlaced kind decorations anchor n).filterMap Placed.separator? = [] := by
  simp [pointPlaced]

@[simp]
theorem positions_anchorPlaced (kind : NodeKind) (decorations : Decorations) (anchor : Anchor)
    (n : Nat) : (anchorPlaced kind decorations anchor n).filterMap Placed.position? =
      [⟨kind, anchor, anchorOffset decorations anchor n⟩] := by
  rw [anchorPlaced, List.filterMap_append, filterMap_position?_groups]
  rfl

@[simp]
theorem positions_pointPlaced (kind : NodeKind) (decorations : Decorations) (anchor : Anchor)
    (n : Nat) : (pointPlaced kind decorations anchor n).filterMap Placed.position? =
      [⟨kind, anchor, anchorOffset decorations anchor n⟩] := by
  rw [pointPlaced, List.filterMap_append, positions_anchorPlaced, filterMap_position?_groups]
  rfl

/-- The anchors of a placed tree stand where the log has them. -/
abbrev Stand (held : List AnchorSpan) (placed : List Placed) : Prop :=
  List.Forall₂ AnchorSpan.At held (placed.filterMap Placed.position?)

end Restore

/-! ## Placing trees -/

/-- A tree is placed as it is passed, from any counter on. -/
def TreePasses (registry : Registry) (tree : Decorated) : Prop :=
  ∀ low, ∃ placed new high, Lays (enclosed registry tree) low placed new high ∧
    new.map Placed.passed = pass registry tree ∧
    separatorOffsets placed = new.filterMap Placed.separator? ∧
    Stand (anchorSpans registry placed) new

/-- A slot is placed as it is passed. -/
def SlotPasses (registry : Registry) (kind : NodeKind) (decorations : Decorations)
    (shape : AnchorShape) (slot : DecoratedSlot) : Prop :=
  ∀ low, ∃ placed new high, Lays (placeSlot registry kind decorations shape slot) low placed new high ∧
    new.map Placed.passed = passSlot registry kind decorations shape slot ∧
    separatorOffsetsSlots [placed] = new.filterMap Placed.separator? ∧
    Stand (anchorSpansSlot registry kind shape.anchor placed) new

/-- Slots are placed as they are passed. -/
def SlotsPass (registry : Registry) (kind : NodeKind) (decorations : Decorations)
    (shapes : List AnchorShape) (slots : List DecoratedSlot) : Prop :=
  ∀ low, ∃ placed new high,
    Lays (placeSlots registry kind decorations shapes slots) low placed new high ∧
    new.map Placed.passed = passSlots registry kind decorations shapes slots ∧
    separatorOffsetsSlots placed = new.filterMap Placed.separator? ∧
    Stand (anchorSpansSlots registry kind shapes placed) new

/-- List elements are placed as they are passed. -/
def ElementsPass (registry : Registry) (separated : Bool) (trees : List Decorated) : Prop :=
  ∀ low, ∃ placed separators new high,
    Lays (placeElements registry separated trees) low (placed, separators) new high ∧
    new.map Placed.passed = passElements registry separated trees ∧
    separatorOffsetsElements separators placed = new.filterMap Placed.separator? ∧
    Stand (anchorSpansElements registry placed) new ∧
    (separated = false → separators = [])

theorem treePasses_of_slots {kind : NodeKind} {decorations : Decorations}
    {slots : List DecoratedSlot}
    (inside : SlotsPass registry kind decorations (registry.anchorsOf kind) slots) :
    TreePasses registry (.node kind decorations slots) := by
  intro low
  obtain ⟨placed, new, high, lays, passed, separators, stand⟩ :=
    inside (pointEnd decorations .start low)
  refine ⟨_, _, _, lays_enclosed lays, ?_, ?_, ?_⟩
  · simp [Decorated.pass, passed]
  · simp [separatorOffsets, separators]
  · rw [anchorSpans, Stand, List.filterMap_append, List.filterMap_append, positions_pointPlaced,
      positions_anchorPlaced]
    exact .cons ⟨rfl, rfl, by simp⟩ (List.rel_append stand (.cons ⟨rfl, rfl, by simp⟩ .nil))

theorem separatorOffsetsSlots_cons (slot : PositionalSlot) (slots : List PositionalSlot) :
    separatorOffsetsSlots (slot :: slots) =
      separatorOffsetsSlots [slot] ++ separatorOffsetsSlots slots := by
  cases slot with
  | token content => simp [separatorOffsetsSlots]
  | child content => cases content <;> simp [separatorOffsetsSlots]
  | list elements separators => simp [separatorOffsetsSlots]

theorem slotsPass_cons {kind : NodeKind} {decorations : Decorations} {shape : AnchorShape}
    {shapes : List AnchorShape} {slot : DecoratedSlot} {slots : List DecoratedSlot}
    (first : SlotPasses registry kind decorations shape slot)
    (behind : SlotsPass registry kind decorations shapes slots) :
    SlotsPass registry kind decorations (shape :: shapes) (slot :: slots) := by
  intro low
  obtain ⟨placed, new, middle, lays, passed, separators, stand⟩ := first low
  obtain ⟨placedRest, newRest, high, laysRest, passedRest, separatorsRest, standRest⟩ :=
    behind middle
  refine ⟨placed :: placedRest, new ++ newRest, high, lays_placeSlots_cons lays laysRest, ?_, ?_, ?_⟩
  · rw [List.map_append, passed, passedRest, passSlots]
  · rw [separatorOffsetsSlots_cons, separators, separatorsRest, List.filterMap_append]
  · rw [anchorSpansSlots, Stand, List.filterMap_append]
    exact List.rel_append stand standRest

theorem slotPasses_child {kind : NodeKind} {decorations : Decorations} {shape : AnchorShape}
    {child : Decorated} (inside : TreePasses registry child) :
    SlotPasses registry kind decorations shape (.child (some child)) := by
  intro low
  obtain ⟨placed, new, middle, lays, passed, separators, stand⟩ := inside low
  refine ⟨.child (some placed), _, _, lays_placeSlot_child lays, ?_, ?_, ?_⟩
  · simp [passSlot, passed, trailing]
  · simp [separatorOffsetsSlots, separators]
  · rw [anchorSpansSlot, Stand, List.filterMap_append, List.filterMap_append, positions_pointPlaced,
      filterMap_position?_groups]
    exact List.rel_append stand (.cons ⟨rfl, rfl, by simp⟩ .nil)

theorem slotPasses_list {kind : NodeKind} {decorations : Decorations} {shape : AnchorShape}
    {elements : List Decorated} (inside : ElementsPass registry (isSeparated shape.slot) elements) :
    SlotPasses registry kind decorations shape (.list elements ()) := by
  intro low
  obtain ⟨placed, separators, new, high, lays, passed, offsets, stand, -⟩ := inside low
  refine ⟨.list placed separators, new, high, lays_placeSlot_list lays, ?_, ?_,
    by rwa [anchorSpansSlot]⟩
  · rw [passed, passSlot]
  · simp [separatorOffsetsSlots, offsets]

theorem elementsPass_cons {separated : Bool} {tree : Decorated} {trees : List Decorated}
    (first : TreePasses registry tree) (behind : ElementsPass registry separated trees) :
    ElementsPass registry separated (tree :: trees) := by
  intro low
  obtain ⟨placed, new, middle, lays, passed, offsets, stand⟩ := first low
  cases separated with
  | false =>
    obtain ⟨placedRest, separators, newRest, high, laysRest, passedRest, offsetsRest, standRest,
      bare⟩ := behind (Restore.behind middle (trailing tree))
    obtain rfl := bare rfl
    refine ⟨placed :: placedRest, [], _, high, lays_placeElements_unseparated lays laysRest, ?_, ?_,
      ?_, fun _ => rfl⟩
    · simp [passElements, passed, passedRest, trailing]
    · simp [separatorOffsetsElements, offsets, offsetsRest]
    · rw [anchorSpansElements, Stand, List.filterMap_append, List.filterMap_append,
        filterMap_position?_groups]
      exact List.rel_append stand standRest
  | true =>
    obtain ⟨placedRest, separators, newRest, high, laysRest, passedRest, offsetsRest, standRest,
      -⟩ := behind (Restore.behind (middle + 1) (trailing tree))
    refine ⟨placed :: placedRest, .point (middle + 1) :: separators, _, high,
      lays_placeElements_separated lays laysRest, ?_, ?_, ?_,
      fun unseparated => absurd unseparated (by decide)⟩
    · simp [passElements, passed, passedRest, trailing, Placed.passed]
    · simp [separatorOffsetsElements, offsets, offsetsRest, Placed.separator?]
    · rw [anchorSpansElements, Stand, List.filterMap_append, List.filterMap_append,
        List.filterMap_append, filterMap_position?_groups]
      exact List.rel_append stand standRest

mutual
/-- Every tree is placed as it is passed. -/
theorem treePasses : ∀ tree : Decorated, TreePasses registry tree
  | .node kind decorations slots =>
      treePasses_of_slots (slotsPass kind decorations (registry.anchorsOf kind) slots)

theorem slotsPass (kind : NodeKind) (decorations : Decorations) :
    ∀ (shapes : List AnchorShape) (slots : List DecoratedSlot),
      SlotsPass registry kind decorations shapes slots
  | shapes, [] => fun low => ⟨[], [], low, lays_placeSlots_nil shapes low, by simp [passSlots], rfl,
      .nil⟩
  | [], slot :: slots => fun low => ⟨[], [], low, lays_placeSlots_shapeless (slot :: slots) low,
      by simp [passSlots], rfl, .nil⟩
  | shape :: shapes, slot :: slots =>
      slotsPass_cons (slotPasses kind decorations shape slot) (slotsPass kind decorations shapes slots)

theorem slotPasses (kind : NodeKind) (decorations : Decorations) (shape : AnchorShape) :
    ∀ slot : DecoratedSlot, SlotPasses registry kind decorations shape slot
  | .token none => fun low => ⟨.token none, [], low, lays_placeSlot_absent low, by simp [passSlot],
      rfl, .nil⟩
  | .token (some text) => fun low => ⟨_, _, _, lays_placeSlot_token text low,
      by simp [passSlot], by simp [separatorOffsetsSlots],
      by simpa [Stand, anchorSpansSlot] using ⟨rfl, rfl, by simp⟩⟩
  | .child none => fun low => ⟨.child none, [], low, lays_placeSlot_vacant low, by simp [passSlot],
      rfl, .nil⟩
  | .child (some child) => slotPasses_child (treePasses child)
  | .list elements _ => slotPasses_list (elementsPass (isSeparated shape.slot) elements)

theorem elementsPass (separated : Bool) :
    ∀ trees : List Decorated, ElementsPass registry separated trees
  | [] => fun low => ⟨[], [], [], low, lays_placeElements_nil separated low, by simp [passElements],
      rfl, .nil, fun _ => rfl⟩
  | tree :: trees => elementsPass_cons (treePasses tree) (elementsPass separated trees)
end

/-- Placing a whole tree places it and then the trivia behind it. -/
theorem place_of_lays {tree : DecoratedTree} {placed : Positional} {new : List Placed} {middle : Nat}
    (lays : Lays (enclosed registry tree.root) 0 placed new middle) :
    (tree.place registry).root = placed ∧
      (tree.place registry).log = new ++ (rows middle (trailing tree.root)).map .group ∧
      Ascends 0 (tree.place registry).log (behind middle (trailing tree.root)) := by
  have whole : Lays (placeTree registry tree.root) 0 placed
      (new ++ (rows middle (trailing tree.root)).map .group) (behind middle (trailing tree.root)) :=
    lays.bind ((lays_placeAfter tree.root.info .finish middle).andReturn fun _ => placed)
  have root : (tree.place registry).root = placed := congrArg Prod.fst (whole.run #[])
  have log : (tree.place registry).log = new ++ (rows middle (trailing tree.root)).map .group := by
    refine (congrArg (fun result => result.2.log.toList) (whole.run #[])).trans ?_
    simp
  exact ⟨root, log, log ▸ whole.ascends⟩

/-- What placing a whole tree puts into its log. -/
theorem exists_log_place (tree : DecoratedTree) (registry : Registry) :
    ∃ high, Ascends 0 (tree.place registry).log high ∧
      (tree.place registry).log.map Placed.passed = fullPass registry tree.root ∧
      separatorOffsets (tree.place registry).root =
        (tree.place registry).log.filterMap Placed.separator? ∧
      Stand (anchorSpans registry (tree.place registry).root) (tree.place registry).log := by
  obtain ⟨placed, new, middle, lays, passed, separators, stand⟩ := @treePasses registry tree.root 0
  obtain ⟨root, log, ascends⟩ := place_of_lays lays
  refine ⟨_, ascends, ?_⟩
  rw [log, root]
  refine ⟨by simp [passed, fullPass], by simp [separators], ?_⟩
  rwa [Stand, List.filterMap_append, filterMap_position?_groups, List.append_nil]

/-- The rows of the comment table are the groups that were passed. -/
theorem filterMap_group?_passed (placed : List Placed) :
    (placed.map Placed.passed).filterMap Passed.group? =
      (placed.filterMap Placed.entry?).map groupOfRow := by
  rw [List.filterMap_map, List.map_filterMap]
  congr 1
  funext thing
  cases thing <;> rfl

/-- **Made-up positions.** The log of a restored tree is what the tree passes, in the order
of the walk and at strictly ascending offsets.  Its comment table holds the trivia groups
that were passed, and the separators, nodes and tokens of the restored tree stand at the
offsets the log has for them. -/
theorem restored_log_ascends (tree : DecoratedTree) (registry : Registry) (restored : Restored)
    (accepted : (tree.restore registry).result = .ok restored) :
    restored.log.map Placed.passed = fullPass registry tree.root ∧
      restored.log.Pairwise (·.offset < ·.offset) ∧
      restored.comments.map groupOfRow = (fullPass registry tree.root).filterMap Passed.group? ∧
      separatorOffsets restored.root = restored.log.filterMap Placed.separator? ∧
      List.Forall₂ AnchorSpan.At (anchorSpans registry restored.root) restored.positions := by
  obtain ⟨-, rfl⟩ := restore_eq_ok_iff.mp accepted
  obtain ⟨high, ascends, passed, separators, stand⟩ := exists_log_place tree registry
  refine ⟨passed, ascends.sorted, ?_, separators, stand⟩
  rw [← passed, filterMap_group?_passed]
  rfl

/-- A call with two arguments and comments on both sides of the separator between them. -/
def separatedCall : DecoratedTree :=
  ⟨.call (.ident "f")
      [.modifyDecoration (.ident "a") .finish fun _ =>
        ⟨[.comment .sameLine "/* in front */"], [.comment .sameLine "// behind", .bare .blank]⟩,
       .ident "b"], .empty⟩

theorem separatedCall_ascends :
    (separatedCall.restore .standard).result = .ok (separatedCall.place .standard) ∧
      (separatedCall.place .standard).log.Pairwise (·.offset < ·.offset) ∧
      (separatedCall.place .standard).comments.map groupOfRow =
        [⟨.sameLine, ["/* in front */"]⟩, ⟨.sameLine, ["// behind"]⟩, ⟨.blank, []⟩] ∧
      List.Forall₂ AnchorSpan.At (anchorSpans .standard (separatedCall.place .standard).root)
        (separatedCall.place .standard).positions := by
  have accepted : (separatedCall.restore .standard).result =
      .ok (separatedCall.place .standard) :=
    restore_eq_ok_iff.mpr ⟨by decide +kernel, rfl⟩
  obtain ⟨-, ascending, groups, -, stand⟩ := restored_log_ascends _ _ _ accepted
  exact ⟨accepted, ascending, groups.trans (by decide +kernel), stand⟩

end GoTrivia

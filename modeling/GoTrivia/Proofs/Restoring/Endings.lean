import GoTrivia.Proofs.Decorating.ElementEnds
import GoTrivia.Proofs.Printing.Standing
import GoTrivia.Proofs.Restoring.Placement

/-!
# Rows behind the last token

What is placed for a tree behind its last token are the rows of the trivia that the tree has there.
If that trivia ends no line, no such row does (`EndsQuietly`).
-/

set_option autoImplicit false

namespace GoTrivia

open Restore Decorated Positional
open CommentGap (Quiet)
open SlotTree (tokensSlots tokensSlot tokensElements preorderSlots preorderElements)

namespace Restore

/-- The rows of groups that end no line end none. -/
theorem still_rows {groups : List TriviaGroup} (quiet : Quiet groups) (n : Nat) :
    ∀ row ∈ rows n groups, row.breaksLine = false := by
  induction groups generalizing n with
  | nil => exact List.forall_mem_nil _
  | cons group groups ih =>
    obtain ⟨here, others⟩ := List.forall_mem_cons.mp quiet
    exact List.forall_mem_cons.mpr ⟨here, ih others _⟩

/-- What is placed for a part of a tree above a counter, when no trivia from an offset of the text on
ends a line: behind the last token of the part no row does. -/
structure EndsQuietly (offset low : Nat) (source placed : List Lexeme) (new : List Placed) : Prop where
  bare : source = [] → new = []
  texts : placed.map Lexeme.text = source.map Lexeme.text
  above : ∀ lexeme ∈ placed, low < lexeme.span.start
  quiet : (∀ lexeme ∈ source.getLast?, offset ≤ lexeme.span.stop) →
    ∀ lexeme ∈ placed.getLast?, ∀ row ∈ table new, lexeme.span.start ≤ row.offset →
      row.breaksLine = false

namespace EndsQuietly

variable {offset low middle : Nat} {source source' placed placed' : List Lexeme}
  {new new' : List Placed}

theorem nil : EndsQuietly offset low [] [] [] where
  bare _ := rfl
  texts := rfl
  above := List.forall_mem_nil _
  quiet _ := by simp

theorem same (ends : EndsQuietly offset low source placed new) : placed = [] ↔ source = [] := by
  rw [← List.map_eq_nil_iff, ends.texts, List.map_eq_nil_iff]

theorem append (first : EndsQuietly offset low source placed new) (ascends : Ascends low new middle)
    (second : EndsQuietly offset middle source' placed' new') :
    EndsQuietly offset low (source ++ source') (placed ++ placed') (new ++ new') := by
  constructor
  case bare =>
    intro none
    obtain ⟨none, none'⟩ := List.append_eq_nil_iff.mp none
    rw [first.bare none, second.bare none']
    rfl
  case texts => rw [List.map_append, List.map_append, first.texts, second.texts]
  case above =>
    refine List.forall_mem_append.mpr ⟨first.above, fun lexeme mem => ?_⟩
    exact Nat.lt_of_le_of_lt ascends.le (second.above lexeme mem)
  case quiet =>
    rcases source'.eq_nil_or_concat with rfl | some
    · obtain rfl := second.same.mpr rfl
      obtain rfl := second.bare rfl
      simpa using first.quiet
    · have some : source' ≠ [] := by
        obtain ⟨front, last, rfl⟩ := some
        simp
      have some' : placed' ≠ [] := some ∘ second.same.mp
      rw [List.getLast?_append_of_ne_nil _ some, List.getLast?_append_of_ne_nil _ some', table_append]
      intro late lexeme isLast row mem behind
      rcases List.mem_append.mp mem with early | here
      · have after := second.above lexeme (List.mem_of_getLast? isLast)
        obtain ⟨thing, held, same⟩ := mem_table_offset early
        have := ascends.below thing held
        omega
      · exact second.quiet late lexeme isLast row here behind

/-- Something around a part with tokens, of which no row behind it ends a line. -/
theorem around (front back : List Placed) (inner : EndsQuietly offset middle source placed new)
    (ascends : Ascends low front middle) (filled : source ≠ [])
    (still : (∀ lexeme ∈ source.getLast?, offset ≤ lexeme.span.stop) →
      ∀ row ∈ table back, row.breaksLine = false) :
    EndsQuietly offset low source placed (front ++ (new ++ back)) := by
  constructor
  case bare => exact fun none => (filled none).elim
  case texts => exact inner.texts
  case above => exact fun lexeme mem => Nat.lt_of_le_of_lt ascends.le (inner.above lexeme mem)
  case quiet =>
    intro late lexeme isLast row mem behind
    rw [table_append, table_append, List.mem_append, List.mem_append] at mem
    rcases mem with early | here | there
    · have after := inner.above lexeme (List.mem_of_getLast? isLast)
      obtain ⟨thing, held, same⟩ := mem_table_offset early
      have := ascends.below thing held
      omega
    · exact inner.quiet late lexeme isLast row here behind
    · exact still late row there

end EndsQuietly

/-- A token ends quietly if the trivia behind it does. -/
theorem endsQuietly_point {offset : Nat} (kind : NodeKind) (decorations : Decorations) (anchor : Anchor)
    (low : Nat) (lexeme : Lexeme)
    (quiet : offset ≤ lexeme.span.stop → Quiet (decorations.ofAnchor anchor).after) :
    EndsQuietly offset low [lexeme]
      [⟨lexeme.text, .point (anchorOffset decorations anchor low)⟩]
      (pointPlaced kind decorations anchor low) := by
  constructor
  case bare => simp
  case texts => rfl
  case above => simpa using lt_anchorOffset decorations anchor low
  case quiet =>
    intro late placed isLast row mem behind
    obtain rfl := Option.some.inj isLast
    simp only [pointPlaced, anchorPlaced, table_append, table_groups, table_anchor,
      List.append_nil] at mem
    rcases List.mem_append.mp mem with early | here
    · have before := rows_le_behind early
      have behind : anchorOffset decorations anchor low ≤ row.offset := behind
      rw [anchorOffset] at behind
      omega
    · exact still_rows (quiet (late lexeme rfl)) _ row here

end Restore

/-! ## Trees -/

namespace Layout

/-- A tree stands in a layout from a place on, and a decorated tree has its decorations from there. -/
structure HasTree (layout : Layout) (place : Nat) (tree : Positional) (decorated : Decorated) :
    Prop where
  twin : Twin tree decorated
  sits : layout.Sits place tree.fragments (decorated.points .standard)
  filled : ∀ node ∈ tree.preorder, node.tokens ≠ []

/-- A slot stands in a layout. -/
structure HasSlot (layout : Layout) (decorations : Decorations) (shape : AnchorShape) (place : Nat)
    (slot : PositionalSlot) (decorated : DecoratedSlot) : Prop where
  twin : TwinSlot slot decorated
  sits : layout.Sits place (fragmentsSlots [slot])
    (pointsSlot .standard decorations shape.anchor decorated)
  filled : ∀ node ∈ preorderSlots [slot], node.tokens ≠ []

/-- Slots stand in a layout. -/
structure HasSlots (layout : Layout) (decorations : Decorations) (shapes : List AnchorShape)
    (place : Nat) (slots : List PositionalSlot) (decorated : List DecoratedSlot) : Prop where
  twins : List.Forall₂ TwinSlot slots decorated
  sits : layout.Sits place (fragmentsSlots slots) (pointsSlots .standard decorations shapes decorated)
  filled : ∀ node ∈ preorderSlots slots, node.tokens ≠ []

/-- List elements stand in a layout. -/
structure HasElements (layout : Layout) (place : Nat) (separators : List Span)
    (trees : List Positional) (decorated : List Decorated) : Prop where
  twins : List.Forall₂ Twin trees decorated
  sits : layout.Sits place (fragmentsElements separators trees) (pointsElements .standard decorated)
  filled : ∀ node ∈ preorderElements trees, node.tokens ≠ []

variable {layout : Layout} {place : Nat}

theorem HasTree.slots {kind : NodeKind} {span : Span} {slots : List PositionalSlot}
    {decorated : Decorated} (has : layout.HasTree place (.node kind span slots) decorated) :
    ∃ decorations slots', decorated = .node kind decorations slots' ∧
      slots.length = (standardShape kind).anchors.length ∧
      layout.HasSlots decorations (standardShape kind).anchors (place + 1) slots slots' ∧
      layout.Sits (place + 1 + (fragmentsSlots slots).length) [.point (.point span.stop)]
        [decorations.ofAnchor .finish] := by
  obtain ⟨decorations, slots', rfl, counted, twins⟩ := has.twin.slots
  have sits := has.sits
  have filled := has.filled
  rw [SlotTree.preorder] at filled
  rw [Positional.fragments, Decorated.points] at sits
  obtain ⟨inside, closing⟩ := sits.behind.cut
    (length_pointsSlots decorations (standardShape kind).anchors slots (Nat.le_of_eq counted) twins)
  exact ⟨decorations, slots', rfl, counted,
    ⟨twins, inside, (List.forall_mem_cons.mp filled).2⟩, closing⟩

/-- The end of a tree. -/
theorem HasTree.finish {tree : Positional} {decorated : Decorated}
    (has : layout.HasTree place tree decorated) :
    ∃ finish, place + tree.fragments.length = finish + 1 ∧
      layout.next? finish = some (.point (.point tree.info.stop)) ∧
      decorated.info.ofAnchor .finish = layout.decorationAt finish := by
  obtain ⟨kind, span, slots⟩ := tree
  obtain ⟨decorations, slots', rfl, -, -, closing⟩ := has.slots
  exact ⟨_, by simp [Positional.fragments, Nat.add_assoc, Nat.add_comm 1], closing.next?,
    closing.decoration⟩

/-- An offset in front of the end of the last token is in front of the end of the tree. -/
theorem HasTree.late {resolver : LineResolver} {line : Nat → Nat} {tree : Positional}
    {decorated : Decorated} {offset : Nat} (has : layout.HasTree place tree decorated)
    (lawful : layout.Lawful resolver line)
    (late : ∀ lexeme ∈ tree.tokens.getLast?, offset ≤ lexeme.span.stop) : offset ≤ tree.info.stop := by
  have some := has.filled tree (SlotTree.self_mem_preorder tree)
  exact Nat.le_trans (late _ (List.getLast?_eq_some_getLast some))
    (lawful.stop_le_of_sits has.sits _ (List.getLast_mem some))

theorem HasSlots.uncons {decorations : Decorations} {shape : AnchorShape} {shapes : List AnchorShape}
    {slot : PositionalSlot} {slots : List PositionalSlot} {decorated : List DecoratedSlot}
    (has : layout.HasSlots decorations (shape :: shapes) place (slot :: slots) decorated) :
    ∃ slot' slots', decorated = slot' :: slots' ∧ layout.HasSlot decorations shape place slot slot' ∧
      layout.HasSlots decorations shapes (place + (fragmentsSlots [slot]).length) slots slots' := by
  obtain ⟨slot', slots', twin, others, rfl⟩ := List.forall₂_cons_left_iff.mp has.twins
  have sits := has.sits
  have filled := has.filled
  rw [SlotTree.preorderSlots_cons] at filled
  rw [fragmentsSlots_cons, pointsSlots] at sits
  obtain ⟨first, below⟩ := List.forall_mem_append.mp filled
  obtain ⟨here, behind⟩ := sits.cut (length_pointsSlot decorations shape twin)
  exact ⟨slot', slots', rfl, ⟨twin, here, first⟩, ⟨others, behind, below⟩⟩

section Slots

variable {decorations : Decorations} {shape : AnchorShape} {slot : DecoratedSlot}

theorem HasSlot.child {child : Positional}
    (has : layout.HasSlot decorations shape place (.child (some child)) slot) :
    ∃ child', slot = .child (some child') ∧ layout.HasTree place child child' ∧
      layout.Sits (place + child.fragments.length) [.point (.point child.info.stop)]
        [decorations.ofAnchor shape.anchor] := by
  obtain ⟨child', rfl, twin⟩ := has.twin.child
  have sits := has.sits
  have filled := has.filled
  rw [preorderSlots, preorderSlots, List.append_nil] at filled
  rw [fragmentsSlots, fragmentsSlots, pointsSlot] at sits
  obtain ⟨here, behind⟩ := sits.cut (length_points child twin)
  exact ⟨child', rfl, ⟨twin, here, filled⟩, behind⟩

theorem HasSlot.list {trees : List Positional} {separators : List Span}
    (has : layout.HasSlot decorations shape place (.list trees separators) slot) :
    ∃ trees', slot = .list trees' () ∧ layout.HasElements place separators trees trees' := by
  obtain ⟨trees', rfl, twins⟩ := has.twin.list
  have sits := has.sits
  have filled := has.filled
  rw [preorderSlots, preorderSlots, List.append_nil] at filled
  rw [fragmentsSlots, fragmentsSlots, List.append_nil, pointsSlot] at sits
  exact ⟨trees', rfl, ⟨twins, sits, filled⟩⟩

end Slots

theorem HasElements.uncons {separators : List Span} {tree : Positional} {trees : List Positional}
    {decorated : List Decorated}
    (has : layout.HasElements place separators (tree :: trees) decorated) :
    ∃ tree' trees', decorated = tree' :: trees' ∧ layout.HasTree place tree tree' ∧
      layout.Sits (place + tree.fragments.length)
        ((separators.head?.map .separator).toList ++ fragmentsElements (separators.drop 1) trees)
        (pointsElements .standard trees') ∧
      layout.HasElements
        (place + tree.fragments.length + (separators.head?.map Fragment.separator).toList.length)
        (separators.drop 1) trees trees' := by
  obtain ⟨tree', trees', twin, others, rfl⟩ := List.forall₂_cons_left_iff.mp has.twins
  have sits := has.sits
  have filled := has.filled
  rw [preorderElements] at filled
  rw [fragmentsElements, List.append_assoc, pointsElements] at sits
  obtain ⟨first, below⟩ := List.forall_mem_append.mp filled
  obtain ⟨here, behind⟩ := sits.cut (length_points tree twin)
  exact ⟨tree', trees', rfl, ⟨twin, here, first⟩, behind, ⟨others, behind.behindSeparator, below⟩⟩

end Layout

namespace Restore

/-- From any counter on, a tree ends quietly. -/
def TreeEnds (offset : Nat) (tree : Positional) (decorated : Decorated) : Prop :=
  ∀ low, ∃ placed new high, Lays (enclosed .standard decorated) low placed new high ∧
    EndsQuietly offset low tree.tokens placed.tokens new

/-- From any counter on, a slot ends quietly. -/
def SlotEnds (offset : Nat) (kind : NodeKind) (decorations : Decorations) (shape : AnchorShape)
    (slot : PositionalSlot) (decorated : DecoratedSlot) : Prop :=
  ∀ low, ∃ placed new high, Lays (placeSlot .standard kind decorations shape decorated) low placed new
      high ∧
    EndsQuietly offset low (tokensSlot slot) (tokensSlot placed) new

/-- From any counter on, slots end quietly. -/
def SlotsEnd (offset : Nat) (kind : NodeKind) (decorations : Decorations) (shapes : List AnchorShape)
    (slots : List PositionalSlot) (decorated : List DecoratedSlot) : Prop :=
  ∀ low, ∃ placed new high, Lays (placeSlots .standard kind decorations shapes decorated) low placed
      new high ∧
    EndsQuietly offset low (tokensSlots slots) (tokensSlots placed) new

/-- From any counter on, list elements end quietly. -/
def ElementsEnd (offset : Nat) (separated : Bool) (trees : List Positional)
    (decorated : List Decorated) : Prop :=
  ∀ low, ∃ placed separators new high, Lays (placeElements .standard separated decorated) low
      (placed, separators) new high ∧
    EndsQuietly offset low (tokensElements trees) (tokensElements placed) new

section Ending

variable {layout : Layout} {resolver : LineResolver} {line : Nat → Nat} {offset last : Nat}

mutual
/-- A tree ends quietly if it ends where the text does. -/
theorem treeEnds (lawful : layout.Lawful resolver line)
    (hushed : layout.Hushed offset last) : ∀ (tree : Positional) {decorated : Decorated}
    {place : Nat}, layout.HasTree place tree decorated →
    place + tree.fragments.length ≤ last + 1 → TreeEnds offset tree decorated
  | .node kind span slots, decorated, place, has, within => by
      have filled := has.filled _ (SlotTree.self_mem_preorder _)
      obtain ⟨decorations, slots', rfl, counted, inside, closing⟩ := has.slots
      simp only [Positional.fragments, List.length_cons, List.length_append, List.length_nil] at within
      intro low
      obtain ⟨placed, new, high, lays, ends⟩ := slotsEnd lawful hushed kind decorations
        (standardShape kind).anchors slots counted inside (by omega)
        (pointEnd decorations .start low)
      have start := lays_placePoint kind decorations .start low
      refine ⟨_, _, _, lays_enclosed lays, ?_⟩
      refine ends.around _ _ start.ascends filled fun late row mem => ?_
      simp only [anchorPlaced, table_append, table_groups, table_anchor, List.append_nil] at mem
      refine still_rows ?_ high row mem
      rw [closing.decoration]
      exact hushed.before (by omega) closing.next? (has.late lawful late)

theorem slotsEnd (lawful : layout.Lawful resolver line)
    (hushed : layout.Hushed offset last) (kind : NodeKind) (decorations : Decorations) :
    ∀ (shapes : List AnchorShape) (slots : List PositionalSlot) {slots' : List DecoratedSlot}
      {place : Nat}, slots.length = shapes.length →
      layout.HasSlots decorations shapes place slots slots' →
      place + (fragmentsSlots slots).length ≤ last →
      SlotsEnd offset kind decorations shapes slots slots'
  | shapes, [], _, _, _, has, _ => by
      cases has.twins
      exact fun low => ⟨[], [], low, lays_placeSlots_nil shapes low, .nil⟩
  | [], _ :: _, _, _, counted, _, _ => by cases counted
  | shape :: shapes, slot :: slots, _, place, counted, has, within => by
      obtain ⟨slot', slots', rfl, here, behind⟩ := has.uncons
      rw [fragmentsSlots_cons, List.length_append] at within
      intro low
      obtain ⟨placed, new, middle, lays, ends⟩ :=
        slotEnds lawful hushed kind decorations shape slot here (by omega) low
      obtain ⟨placedRest, newRest, high, laysRest, endsRest⟩ := slotsEnd lawful hushed kind decorations
        shapes slots (Nat.succ.inj counted) behind (by omega) middle
      refine ⟨_, _, _, lays_placeSlots_cons lays laysRest, ?_⟩
      exact ends.append lays.ascends endsRest

theorem slotEnds (lawful : layout.Lawful resolver line)
    (hushed : layout.Hushed offset last) (kind : NodeKind) (decorations : Decorations)
    (shape : AnchorShape) : ∀ (slot : PositionalSlot) {slot' : DecoratedSlot} {place : Nat},
      layout.HasSlot decorations shape place slot slot' →
      place + (fragmentsSlots [slot]).length ≤ last →
      SlotEnds offset kind decorations shape slot slot'
  | .token none, _, _, has, _ => by
      rw [has.twin.token]
      exact fun low => ⟨.token none, [], low, lays_placeSlot_absent low, .nil⟩
  | .token (some token), _, place, has, within => by
      have sits := has.sits
      rw [has.twin.token, fragmentsSlots, Option.map_some, pointsSlot] at sits
      rw [has.twin.token]
      simp only [fragmentsSlots, List.length_cons, List.length_nil] at within
      intro low
      refine ⟨_, _, _, lays_placeSlot_token token.text low, ?_⟩
      refine endsQuietly_point kind decorations shape.anchor low token fun late => ?_
      rw [sits.decoration]
      exact hushed.after (by omega) sits.next? late
  | .child none, _, _, has, _ => by
      rw [has.twin.vacant]
      exact fun low => ⟨.child none, [], low, lays_placeSlot_vacant low, .nil⟩
  | .child (some child), _, place, has, within => by
      obtain ⟨decorated, rfl, inside, behind⟩ := has.child
      have filled := inside.filled child (SlotTree.self_mem_preorder child)
      obtain ⟨finish, size, isFinish, closing⟩ := inside.finish
      simp only [fragmentsSlots, List.length_append, List.length_cons, List.length_nil] at within
      intro low
      obtain ⟨placed, new, middle, lays, ends⟩ := treeEnds lawful hushed child inside (by omega) low
      refine ⟨_, _, _, lays_placeSlot_child lays, ?_⟩
      refine ends.around [] _ (.nil low) filled fun late row mem => ?_
      simp only [pointPlaced, anchorPlaced, table_append, table_groups, table_anchor,
        List.append_nil, List.mem_append] at mem
      rcases mem with trailing | before | after
      · refine still_rows ?_ _ row trailing
        rw [closing]
        exact hushed.after (by omega) isFinish (inside.late lawful late)
      · refine still_rows ?_ _ row before
        rw [behind.decoration]
        exact hushed.before (by omega) behind.next? (inside.late lawful late)
      · refine still_rows ?_ _ row after
        rw [behind.decoration]
        exact hushed.after (by omega) behind.next? (inside.late lawful late)
  | .list elements separators, _, place, has, within => by
      obtain ⟨elements', rfl, inside⟩ := has.list
      rw [fragmentsSlots, fragmentsSlots, List.append_nil] at within
      intro low
      obtain ⟨placed, placedSeparators, new, high, lays, ends⟩ :=
        elementsEnd lawful hushed (isSeparated shape.slot) separators elements inside within low
      exact ⟨.list placed placedSeparators, new, high, lays_placeSlot_list lays, ends⟩

theorem elementsEnd (lawful : layout.Lawful resolver line)
    (hushed : layout.Hushed offset last) (separated : Bool) :
    ∀ (separators : List Span) (trees : List Positional) {trees' : List Decorated} {place : Nat},
      layout.HasElements place separators trees trees' →
      place + (fragmentsElements separators trees).length ≤ last →
      ElementsEnd offset separated trees trees'
  | _, [], _, _, has, _ => by
      cases has.twins
      exact fun low => ⟨[], [], [], low, lays_placeElements_nil separated low, .nil⟩
  | separators, tree :: trees, _, place, has, within => by
      obtain ⟨tree', trees', rfl, inside, -, behind⟩ := has.uncons
      have filled := inside.filled tree (SlotTree.self_mem_preorder tree)
      obtain ⟨finish, size, isFinish, closing⟩ := inside.finish
      rw [fragmentsElements, List.length_append, List.length_append] at within
      have still (n : Nat) (late : ∀ lexeme ∈ tree.tokens.getLast?, offset ≤ lexeme.span.stop) :
          ∀ row ∈ rows n (tree'.info.ofAnchor .finish).after, row.breaksLine = false := by
        rw [closing]
        exact still_rows (hushed.after (by omega) isFinish (inside.late lawful late)) n
      intro low
      obtain ⟨placed, new, middle, lays, ends⟩ := treeEnds lawful hushed tree inside (by omega) low
      cases separated with
      | false =>
        have after := lays_placeAfter tree'.info .finish middle
        obtain ⟨placedRest, rest, newRest, high, laysRest, endsRest⟩ := elementsEnd lawful hushed false
          (separators.drop 1) trees behind (by omega) _
        refine ⟨_, _, _, _, lays_placeElements_unseparated lays laysRest, ?_⟩
        have ends := ends.around [] ((rows middle (tree'.info.ofAnchor .finish).after).map .group)
          (.nil low) filled fun late row mem => still middle late row (by simpa using mem)
        simpa [tokensElements] using ends.append (lays.ascends.append after.ascends) endsRest
      | true =>
        have point := lays_place .sameLine .separator (fun _ => rfl) middle
        have after := lays_placeAfter tree'.info .finish (middle + 1)
        obtain ⟨placedRest, rest, newRest, high, laysRest, endsRest⟩ := elementsEnd lawful hushed true
          (separators.drop 1) trees behind (by omega) _
        refine ⟨_, _, _, _, lays_placeElements_separated lays laysRest, ?_⟩
        have ends := ends.around [] ([.separator (middle + 1)] ++
          (rows (middle + 1) (tree'.info.ofAnchor .finish).after).map .group)
          (.nil low) filled fun late row mem => still (middle + 1) late row (by
            rwa [table_append, table_separator, List.nil_append, table_groups] at mem)
        simpa [tokensElements, Spacing.lineBreaks] using
          ends.append (lays.ascends.append (point.ascends.append after.ascends)) endsRest
end

end Ending

end Restore

end GoTrivia

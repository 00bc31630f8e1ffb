import GoTrivia.Proofs.Printing.TrailingSeparators
import GoTrivia.Proofs.Restoring.Endings

/-!
# Rows at the end of a list

In a restored text, no row between the last token of a separated list and the place behind which its
last separator comes ends a line.

**Induction.** A part of a tree is placed between two counters, and what is said about its lists needs
only the rows between these (`Covers`).  So parts are put together without looking at the rows of
other parts.
-/

set_option autoImplicit false

namespace GoTrivia

open Restore Decorated Positional
open SlotTree (tokensSlots tokensSlot tokensElements preorderSlots preorderElements)

namespace Restore

/-! ## Rows between two counters -/

/-- The rows of a table between two counters are those of what was placed there. -/
def Covers (rows : List CommentEntry) (low : Nat) (new : List Placed) (high : Nat) : Prop :=
  ∀ row ∈ rows, low < row.offset → row.offset ≤ high → row ∈ table new

namespace Covers

variable {rows : List CommentEntry} {low middle high : Nat} {first second : List Placed}
  (covers : Covers rows low (first ++ second) high)
include covers

theorem left (above : Ascends middle second high) : Covers rows low first middle := by
  intro row mem isAbove isBelow
  have mem := covers row mem isAbove (Nat.le_trans isBelow above.le)
  rw [table_append, List.mem_append] at mem
  refine mem.resolve_right fun behind => ?_
  obtain ⟨thing, held, same⟩ := mem_table_offset behind
  have := above.above thing held
  omega

theorem right (below : Ascends low first middle) : Covers rows middle second high := by
  intro row mem isAbove isBelow
  have mem := covers row mem (Nat.lt_of_le_of_lt below.le isAbove) isBelow
  rw [table_append, List.mem_append] at mem
  refine mem.resolve_left fun before => ?_
  obtain ⟨thing, held, same⟩ := mem_table_offset before
  have := below.below thing held
  omega

end Covers

/-! ## Quiet lists -/

/-- The last element of a list ends with a token that shows, and no row from there up to the
separator ends a line. -/
def QuietList (rows : List CommentEntry) (separators : List Span) : List Positional → Prop
  | [] => True
  | element :: elements => ∃ last ∈ (element :: elements).getLast?, ∃ lexeme ∈ last.tokens.getLast?,
    lexeme.text ≠ "" ∧ ∀ row ∈ rows, lexeme.span.start ≤ row.offset →
      row.offset ≤ Script.lastSeparator separators element elements → row.breaksLine = false

/-- A list with separators is quiet. -/
def QuietSlot (rows : List CommentEntry) (shape : AnchorShape) : PositionalSlot → Prop
  | .list trees separators => isSeparated shape.slot = true → QuietList rows separators trees
  | _ => True

/-- The lists of a node are quiet. -/
def QuietNode (rows : List CommentEntry) (node : Positional) : Prop :=
  ∀ pair ∈ (Registry.standard.anchorsOf node.kind).zip node.slots, QuietSlot rows pair.1 pair.2

/-- From any counter on, the lists of a tree are quiet. -/
def TreeQuiet (tree : Decorated) : Prop :=
  ∀ low, ∃ placed new high, Lays (enclosed .standard tree) low placed new high ∧
    ∀ rows, Covers rows low new high → ∀ node ∈ placed.preorder, QuietNode rows node

/-- From any counter on, the lists of a slot are quiet. -/
def SlotQuiet (kind : NodeKind) (decorations : Decorations) (shape : AnchorShape)
    (slot : DecoratedSlot) : Prop :=
  ∀ low, ∃ placed new high, Lays (placeSlot .standard kind decorations shape slot) low placed new high ∧
    ∀ rows, Covers rows low new high →
      QuietSlot rows shape placed ∧ ∀ node ∈ preorderSlots [placed], QuietNode rows node

/-- From any counter on, the lists of slots are quiet. -/
def SlotsQuiet (kind : NodeKind) (decorations : Decorations) (shapes : List AnchorShape)
    (slots : List DecoratedSlot) : Prop :=
  ∀ low, ∃ placed new high,
    Lays (placeSlots .standard kind decorations shapes slots) low placed new high ∧
    ∀ rows, Covers rows low new high →
      (∀ pair ∈ shapes.zip placed, QuietSlot rows pair.1 pair.2) ∧
      ∀ node ∈ preorderSlots placed, QuietNode rows node

/-- From any counter on, list elements and the lists in them are quiet. -/
def ElementsQuiet (separated : Bool) (trees : List Decorated) : Prop :=
  ∀ low, ∃ placed separators new high,
    Lays (placeElements .standard separated trees) low (placed, separators) new high ∧
    ∀ rows, Covers rows low new high → (separated = true → QuietList rows separators placed) ∧
      ∀ node ∈ preorderElements placed, QuietNode rows node

/-- From any counter on, a tree ends with a token that shows, and no row behind that ends a line. -/
def EndQuiet (tree : Decorated) : Prop :=
  ∀ low, ∃ placed new high, Lays (enclosed .standard tree) low placed new high ∧
    ∃ lexeme ∈ placed.tokens.getLast?, lexeme.text ≠ "" ∧ low < lexeme.span.start ∧
      ∀ row ∈ table new, lexeme.span.start ≤ row.offset → row.breaksLine = false

/-! ## Putting parts together -/

theorem treeQuiet_of_slots {kind : NodeKind} {decorations : Decorations} {slots : List DecoratedSlot}
    (inside : SlotsQuiet kind decorations (standardShape kind).anchors slots) :
    TreeQuiet (.node kind decorations slots) := by
  intro low
  obtain ⟨placed, new, high, lays, quiet⟩ := inside (pointEnd decorations .start low)
  have start := lays_placePoint kind decorations .start low
  have stop := lays_placeAnchor kind decorations .finish high
  refine ⟨_, _, _, lays_enclosed lays, ?_⟩
  intro rows covers
  obtain ⟨here, below⟩ := quiet rows
    ((covers.right start.ascends).left stop.ascends)
  rw [SlotTree.preorder]
  exact List.forall_mem_cons.mpr ⟨here, below⟩

theorem slotsQuiet_nil (kind : NodeKind) (decorations : Decorations) :
    SlotsQuiet kind decorations [] [] :=
  fun low => ⟨[], [], low, lays_placeSlots_nil [] low,
    fun _ _ => ⟨by simp, by simp [preorderSlots]⟩⟩

theorem slotsQuiet_cons {kind : NodeKind} {decorations : Decorations} {shape : AnchorShape}
    {shapes : List AnchorShape} {slot : DecoratedSlot} {slots : List DecoratedSlot}
    (first : SlotQuiet kind decorations shape slot)
    (behind : SlotsQuiet kind decorations shapes slots) :
    SlotsQuiet kind decorations (shape :: shapes) (slot :: slots) := by
  intro low
  obtain ⟨placed, new, middle, lays, quiet⟩ := first low
  obtain ⟨placedRest, newRest, high, laysRest, quietRest⟩ := behind middle
  refine ⟨placed :: placedRest, _, _, lays_placeSlots_cons lays laysRest, ?_⟩
  intro rows covers
  obtain ⟨here, below⟩ := quiet rows (covers.left laysRest.ascends)
  obtain ⟨others, belowRest⟩ := quietRest rows (covers.right lays.ascends)
  rw [SlotTree.preorderSlots_cons]
  exact ⟨List.forall_mem_cons.mpr ⟨here, others⟩, List.forall_mem_append.mpr ⟨below, belowRest⟩⟩

section Slots

variable {kind : NodeKind} {decorations : Decorations} {shape : AnchorShape}

theorem slotQuiet_token (content : Option String) :
    SlotQuiet kind decorations shape (.token content) := by
  intro low
  cases content with
  | none => exact ⟨.token none, [], low, lays_placeSlot_absent low,
      fun _ _ => ⟨trivial, by simp [preorderSlots]⟩⟩
  | some text => exact ⟨_, _, _, lays_placeSlot_token text low,
      fun _ _ => ⟨trivial, by simp [preorderSlots]⟩⟩

theorem slotQuiet_none : SlotQuiet kind decorations shape (.child none) :=
  fun low => ⟨.child none, [], low, lays_placeSlot_vacant low,
    fun _ _ => ⟨trivial, by simp [preorderSlots]⟩⟩

theorem slotQuiet_child {child : Decorated} (inside : TreeQuiet child) :
    SlotQuiet kind decorations shape (.child (some child)) := by
  intro low
  obtain ⟨placed, new, middle, lays, quiet⟩ := inside low
  have after := lays_placeAfter child.info .finish middle
  have point := lays_placePoint kind decorations shape.anchor
    (Restore.behind middle (child.info.ofAnchor .finish).after)
  refine ⟨.child (some placed), _, _, lays_placeSlot_child lays, ?_⟩
  intro rows covers
  refine ⟨trivial, ?_⟩
  rw [preorderSlots, preorderSlots, List.append_nil]
  exact quiet rows (covers.left (after.ascends.append point.ascends))

theorem slotQuiet_list {trees : List Decorated}
    (inside : ElementsQuiet (isSeparated shape.slot) trees) :
    SlotQuiet kind decorations shape (.list trees ()) := by
  intro low
  obtain ⟨placed, separators, new, high, lays, quiet⟩ := inside low
  refine ⟨.list placed separators, _, _, lays_placeSlot_list lays, ?_⟩
  intro rows covers
  rw [preorderSlots, preorderSlots, List.append_nil]
  exact quiet rows covers

theorem elementsQuiet_nil (separated : Bool) : ElementsQuiet separated [] :=
  fun low => ⟨[], [], [], low, lays_placeElements_nil separated low,
    fun _ _ => ⟨fun _ => trivial, by simp [preorderElements]⟩⟩

theorem slotQuiet_vacant {content : SlotShape} {slot : DecoratedSlot}
    (twin : TwinSlot (.vacant content) slot) : SlotQuiet kind decorations shape slot := by
  cases content with
  | token text =>
    rw [twin.token]
    exact slotQuiet_token none
  | child =>
    rw [twin.vacant]
    exact slotQuiet_none
  | list layout =>
    obtain ⟨trees, rfl, twins⟩ := twin.list
    cases twins
    exact slotQuiet_list (elementsQuiet_nil _)

end Slots

theorem elementsQuiet_unseparated {tree : Decorated} {trees : List Decorated} (first : TreeQuiet tree)
    (behind : ElementsQuiet false trees) : ElementsQuiet false (tree :: trees) := by
  intro low
  obtain ⟨placed, new, middle, lays, quiet⟩ := first low
  have after := lays_placeAfter tree.info .finish middle
  obtain ⟨placedRest, separators, newRest, high, laysRest, quietRest⟩ := behind _
  refine ⟨_, _, _, _, lays_placeElements_unseparated lays laysRest, ?_⟩
  intro rows covers
  have here := quiet rows (covers.left (after.ascends.append laysRest.ascends))
  have others := (quietRest rows ((covers.right lays.ascends).right after.ascends)).2
  rw [preorderElements]
  exact ⟨nofun, List.forall_mem_append.mpr ⟨here, others⟩⟩

/-- The last element decides. -/
theorem elementsQuiet_separated {tree : Decorated} {trees : List Decorated} (first : TreeQuiet tree)
    (ends : EndQuiet tree) (behind : ElementsQuiet true trees) :
    ElementsQuiet true (tree :: trees) := by
  intro low
  obtain ⟨placed, new, middle, lays, quiet⟩ := first low
  obtain ⟨_, _, _, lays', lexeme, isLast, shows, above, still⟩ := ends low
  obtain ⟨rfl, rfl, rfl⟩ := lays.unique lays'
  have point := lays_place .sameLine .separator (fun _ => rfl) middle
  have after := lays_placeAfter tree.info .finish (middle + 1)
  obtain ⟨placedRest, separators, newRest, high, laysRest, quietRest⟩ := behind _
  refine ⟨placed :: placedRest, .point (middle + 1) :: separators, _, _,
    lays_placeElements_separated lays laysRest, ?_⟩
  intro rows covers
  have last := after.ascends.append laysRest.ascends
  obtain ⟨others, below⟩ := quietRest rows
    (((covers.right lays.ascends).right point.ascends).right after.ascends)
  have here := quiet rows (covers.left (point.ascends.append last))
  rw [preorderElements]
  refine ⟨fun _ => ?_, List.forall_mem_append.mpr ⟨here, below⟩⟩
  cases placedRest with
  | nil =>
    refine ⟨placed, rfl, lexeme, isLast, shows, fun row mem isBehind isBefore => ?_⟩
    have isBefore : row.offset ≤ middle + 1 := isBefore
    rw [← List.append_assoc] at covers
    have inside := covers.left last row mem (Nat.lt_of_lt_of_le above isBehind) isBefore
    rw [table_append, table_separator, List.append_nil] at inside
    exact still row inside isBehind
  | cons next placedRest =>
    obtain ⟨last, isLast, lexeme, more⟩ := others rfl
    exact ⟨last, by simpa using isLast, lexeme, more⟩

end Restore

/-! ## Lists of a text -/

/-- Slots begin with a point. -/
theorem isPoint_of_mem_head? {slots : List PositionalSlot} {fragment : Fragment}
    (isFirst : fragment ∈ (fragmentsSlots slots).head?) : fragment.isPoint = true := by
  induction slots with
  | nil => simp [fragmentsSlots] at isFirst
  | cons slot slots ih =>
    have first (tree : Positional) {fragment : Fragment} (more : List Fragment)
        (isFirst : fragment ∈ (tree.fragments ++ more).head?) : fragment.isPoint = true := by
      obtain ⟨kind, span, below⟩ := tree
      rw [Positional.fragments, List.cons_append] at isFirst
      obtain rfl := Option.some.inj isFirst
      rfl
    cases slot with
    | token content =>
      cases content with
      | none => exact ih isFirst
      | some lexeme =>
        obtain rfl := Option.some.inj isFirst
        rfl
    | child content =>
      cases content with
      | none => exact ih isFirst
      | some child => exact first child _ isFirst
    | list elements separators =>
      cases elements with
      | nil => exact ih isFirst
      | cons element elements =>
        rw [fragmentsSlots, fragmentsElements, List.append_assoc, List.append_assoc] at isFirst
        exact first element _ isFirst

namespace Layout

variable {layout : Layout}

/-- No separator stands where slots begin. -/
theorem Sits.unseparated {place : Nat} {slots : List PositionalSlot} {points : List Decoration}
    (sits : layout.Sits place (fragmentsSlots slots) points)
    (behind : layout.isSeparator (place + (fragmentsSlots slots).length) = false) :
    layout.isSeparator place = false := by
  have opens := @isPoint_of_mem_head? slots
  generalize fragmentsSlots slots = fragments at sits behind opens
  cases fragments with
  | nil => exact behind
  | cons fragment fragments =>
    cases fragment with
    | point span => exact isSeparator_eq_false sits.next?
    | separator span => cases opens rfl

theorem isSeparator_behind {place : Nat} {slot : PositionalSlot} {slots : List PositionalSlot}
    (behind : layout.isSeparator (place + (fragmentsSlots (slot :: slots)).length) = false) :
    layout.isSeparator (place + (fragmentsSlots [slot]).length + (fragmentsSlots slots).length) =
      false := by
  rwa [fragmentsSlots_cons, List.length_append, ← Nat.add_assoc] at behind

section Texts

variable {text : String} {line : Nat → Nat}

/-- List elements of a text end quietly. -/
theorem endQuiet (lawful : layout.Lawful (.ofText text) line)
    (comments : layout.comments = (lex text).comments) {tree : Positional} {tokens : List Token}
    (spells : Spells tree tokens) (ends : Ends tokens) (inside : tokens <:+: (lex text).tokens)
    {decorated : Decorated} {place : Nat} (has : layout.HasTree place tree decorated)
    (follows : layout.Follows (lex text).tokens tokens (place + tree.fragments.length)) :
    EndQuiet decorated := by
  obtain ⟨finish, lexeme, size, isLast, shows, stop, hushed⟩ :=
    lawful.hushed_element comments spells ends inside has.sits follows
  intro low
  obtain ⟨placed, new, high, lays, ends⟩ := treeEnds lawful hushed tree has (Nat.le_of_eq size) low
  have last := congrArg List.getLast? ends.texts
  rw [List.getLast?_map, List.getLast?_map, isLast] at last
  obtain ⟨lexeme', isLast', same⟩ := Option.map_eq_some_iff.mp last
  refine ⟨placed, new, high, lays, lexeme', isLast', same ▸ shows,
    ends.above lexeme' (List.mem_of_getLast? isLast'), ?_⟩
  refine ends.quiet (fun other isOther => ?_) lexeme' isLast'
  obtain rfl := Option.some.inj (isLast.symm.trans isOther)
  exact Nat.le_of_eq stop.symm

mutual
/-- The lists of a tree of a text are quiet. -/
theorem treeQuiet (lawful : layout.Lawful (.ofText text) line)
    (comments : layout.comments = (lex text).comments) : ∀ {tree : Positional} {tokens : List Token},
    Spells tree tokens → tokens <:+: (lex text).tokens → ∀ {decorated : Decorated} {place : Nat},
    layout.HasTree place tree decorated → TreeQuiet decorated
  | _, _, .node content _ _ _ _ _, inside, _, _, has => by
      obtain ⟨decorations, slots', rfl, -, slots, closing⟩ := has.slots
      exact treeQuiet_of_slots (slotsQuiet lawful comments decorations content inside slots
        (isSeparator_eq_false closing.next?))

theorem slotsQuiet (lawful : layout.Lawful (.ofText text) line)
    (comments : layout.comments = (lex text).comments) (decorations : Decorations) :
    ∀ {kind : NodeKind} {shapes : List AnchorShape}
      {slots : List PositionalSlot} {tokens : List Token}, SpellsSlots kind shapes slots tokens →
      tokens <:+: (lex text).tokens → ∀ {slots' : List DecoratedSlot} {place : Nat},
      layout.HasSlots decorations shapes place slots slots' →
      layout.isSeparator (place + (fragmentsSlots slots).length) = false →
      SlotsQuiet kind decorations shapes slots'
  | kind, _, _, _, .nil, _, _, _, has, _ => by
      cases has.twins
      exact slotsQuiet_nil kind decorations
  | _, _, _, _, .vacant empty rest, inside, _, _, has, behind => by
      obtain ⟨slot', slots', rfl, here, later⟩ := has.uncons
      subst empty
      exact slotsQuiet_cons (slotQuiet_vacant here.twin)
        (slotsQuiet lawful comments decorations rest inside later (isSeparator_behind behind))
  | _, _, _, _, .token _ _ _ rest, inside, _, _, has, behind => by
      obtain ⟨slot', slots', rfl, here, later⟩ := has.uncons
      rw [here.twin.token]
      exact slotsQuiet_cons (slotQuiet_token _) (slotsQuiet lawful comments decorations rest
        ((List.suffix_cons _ _).isInfix.trans inside) later (isSeparator_behind behind))
  | _, _, _, _, .child _ content _ rest, inside, _, _, has, behind => by
      obtain ⟨slot', slots', rfl, here, later⟩ := has.uncons
      obtain ⟨child', rfl, child, -⟩ := here.child
      refine slotsQuiet_cons (slotQuiet_child ?_) (slotsQuiet lawful comments decorations rest
        ((List.suffix_append _ _).isInfix.trans inside) later (isSeparator_behind behind))
      exact treeQuiet lawful comments content ((List.prefix_append _ _).isInfix.trans inside) child
  | _, shape :: _, _, _, .separated isList separator content _ rest, inside, _, _, has, behind => by
      obtain ⟨slot', slots', rfl, here, later⟩ := has.uncons
      obtain ⟨trees, rfl, elements⟩ := here.list
      have behind := isSeparator_behind behind
      have next := later.sits.unseparated behind
      rw [fragmentsSlots, fragmentsSlots, List.append_nil] at next
      refine slotsQuiet_cons (slotQuiet_list ?_) (slotsQuiet lawful comments decorations rest
        ((List.suffix_append _ _).isInfix.trans inside) later behind)
      rw [show isSeparated shape.slot = true by rw [isList, isSeparated, separator]; rfl]
      exact separatedQuiet lawful comments content ((List.prefix_append _ _).isInfix.trans inside)
        elements next
  | _, shape :: _, _, _, .terminated isList separator content rest, inside, _, _, has, behind => by
      obtain ⟨slot', slots', rfl, here, later⟩ := has.uncons
      obtain ⟨trees, rfl, elements⟩ := here.list
      refine slotsQuiet_cons (slotQuiet_list ?_) (slotsQuiet lawful comments decorations rest
        ((List.suffix_append _ _).isInfix.trans inside) later (isSeparator_behind behind))
      rw [show isSeparated shape.slot = false by rw [isList, isSeparated, separator]; rfl]
      exact terminatedQuiet lawful comments content ((List.prefix_append _ _).isInfix.trans inside)
        elements

theorem separatedQuiet (lawful : layout.Lawful (.ofText text) line)
    (comments : layout.comments = (lex text).comments) :
    ∀ {nodes : List Positional} {separators : List Span} {tokens : List Token},
      SpellsSeparated nodes separators tokens → tokens <:+: (lex text).tokens →
      ∀ {trees : List Decorated} {place : Nat}, layout.HasElements place separators nodes trees →
      layout.isSeparator (place + (fragmentsElements separators nodes).length) = false →
      ElementsQuiet true trees
  | _, _, _, .nil, _, _, _, has, _ => by
      cases has.twins
      exact elementsQuiet_nil true
  | _, _, _, .last content ends, inside, _, _, has, behind => by
      obtain ⟨tree, trees, rfl, here, -, others⟩ := has.uncons
      cases others.twins
      simp only [fragmentsElements, List.head?_nil, Option.map_none, Option.toList_none,
        List.append_nil] at behind
      exact elementsQuiet_separated (treeQuiet lawful comments content inside here)
        (endQuiet lawful comments content ends inside here (.other behind)) (elementsQuiet_nil true)
  | _, _, _, @SpellsSeparated.cons node nodes comma separators front tokens content ends isComma rest,
      inside, _, place, has, behind => by
      obtain ⟨tree, trees, rfl, here, next, later⟩ := has.uncons
      have within : front ++ [comma] <:+: (lex text).tokens :=
        List.IsInfix.trans ⟨[], tokens, by simp⟩ inside
      have within' := (List.prefix_append _ _).isInfix.trans within
      have behind : layout.isSeparator (place + node.fragments.length + 1 +
          (fragmentsElements separators nodes).length) = false := by
        rw [fragmentsElements, List.length_append, List.length_append] at behind
        simpa [Nat.add_assoc] using behind
      refine elementsQuiet_separated (treeQuiet lawful comments content within' here)
        (endQuiet lawful comments content ends within' here (.comma isComma within next.next?)) ?_
      exact separatedQuiet lawful comments rest ((List.suffix_cons _ _).isInfix.trans
        ((List.suffix_append _ _).isInfix.trans inside)) later behind

theorem terminatedQuiet (lawful : layout.Lawful (.ofText text) line)
    (comments : layout.comments = (lex text).comments) :
    ∀ {nodes : List Positional} {tokens : List Token},
      SpellsTerminated nodes tokens → tokens <:+: (lex text).tokens →
      ∀ {trees : List Decorated} {place : Nat}, layout.HasElements place [] nodes trees →
      ElementsQuiet false trees
  | _, _, .nil, _, _, _, has => by
      cases has.twins
      exact elementsQuiet_nil false
  | _, _, .skip _ rest, inside, _, _, has =>
      terminatedQuiet lawful comments rest ((List.suffix_cons _ _).isInfix.trans inside) has
  | _, _, .cons content rest, inside, _, _, has => by
      obtain ⟨tree, trees, rfl, here, -, later⟩ := has.uncons
      exact elementsQuiet_unseparated
        (treeQuiet lawful comments content ((List.prefix_append _ _).isInfix.trans inside) here)
        (terminatedQuiet lawful comments rest ((List.suffix_append _ _).isInfix.trans inside) later)
end

end Texts

end Layout

end GoTrivia

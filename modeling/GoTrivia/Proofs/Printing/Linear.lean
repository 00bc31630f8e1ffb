import GoTrivia.Proofs.Printing.Running
import GoTrivia.Proofs.Printing.Standing
import GoTrivia.Proofs.Restoring.Accepting
import GoTrivia.Proofs.Tree.Faults
import GoTrivia.RoundTrip

/-!
# Printing follows the walk

The items printed for a decorated tree are those of its walk, in the order of the walk.
The proof places and prints a tree side by side, by recursion on the tree: whatever
placing a part puts down between two counters, printing the part carries the printer
over, telling the trail of the part.
-/

set_option autoImplicit false

namespace GoTrivia

open Print Restore Decorated

variable {registry : Registry}

/-! ## What is shown of each part of a tree -/

/-- The nodes below one slot. -/
def slotNodes : DecoratedSlot → List Decorated
  | .token _ => []
  | .child none => []
  | .child (some child) => child.preorder
  | .list elements _ => SlotTree.preorderElements elements

/-- A tree is placed, and what is placed for it prints as its trail. -/
def TreePrints (registry : Registry) (tree : Decorated) (low : Nat) : Prop :=
  ∃ placed new high, Lays (enclosed registry tree) low placed new high ∧
    Prints (Print.tree registry placed) low (Decorated.trail registry tree) new high

/-- How the slot that was placed looks to a list in front of it: it holds a token, it is
empty and takes no offsets, or it is filled otherwise. -/
inductive Opens (kind : NodeKind) (decorations : Decorations) (anchor : Anchor) (low : Nat) :
    DecoratedSlot → PositionalSlot → List Placed → Nat → Prop
  | token (text : String) : Opens kind decorations anchor low (.token (some text))
      (.token (some ⟨text, .point (anchorOffset decorations anchor low)⟩))
      (pointPlaced kind decorations anchor low) (pointEnd decorations anchor low)
  | empty {slot : DecoratedSlot} {placed : PositionalSlot} (absent : slot.isPresent = false)
      (absent' : placed.isPresent = false) : Opens kind decorations anchor low slot placed [] low
  | child {child : Decorated} {placed : Positional} {new : List Placed} {high : Nat} :
      Opens kind decorations anchor low (.child (some child)) (.child (some placed)) new high
  | list {elements : List Decorated} {placed : List Positional} {separators : List Span}
      {new : List Placed} {high : Nat} (filled : elements ≠ []) (filled' : placed ≠ []) :
      Opens kind decorations anchor low (.list elements ()) (.list placed separators) new high

/-- A slot is placed, and what is placed for it prints as its trail, whatever slots
follow. -/
def SlotPrints (registry : Registry) (kind : NodeKind) (decorations : Decorations)
    (shape : AnchorShape) (slot : DecoratedSlot) (low : Nat) : Prop :=
  ∃ placed new high, Lays (placeSlot registry kind decorations shape slot) low placed new high ∧
    Opens kind decorations shape.anchor low slot placed new high ∧
    ∀ (node : Positional) (tokens : Nat) (following : List PositionalSlot)
      (closing : Option (List TriviaGroup)) (whole : List CommentEntry) (state : State)
      (trail : List Step) (ahead : List CommentEntry),
      Stands whole state low trail (Restore.table new ++ ahead) →
      (∀ row ∈ ahead, high < row.offset) →
      Closes (nextToken? following) closing high ahead →
      ∃ after, (printSlot registry node tokens shape following placed).run state =
          .ok ((), after) ∧
        Stands whole after high (trail ++ trailSlot registry decorations shape closing slot) ahead

/-- Slots are placed, they print as their trail, and the rows of their first token are the
first ones. -/
def SlotsPrint (registry : Registry) (kind : NodeKind) (decorations : Decorations)
    (shapes : List AnchorShape) (slots : List DecoratedSlot) (low : Nat) : Prop :=
  ∃ placed new high, Lays (placeSlots registry kind decorations shapes slots) low placed new high ∧
    (∀ ahead : List CommentEntry, (∀ row ∈ ahead, high < row.offset) →
      Closes (nextToken? placed) (closing? decorations shapes slots) low
        (Restore.table new ++ ahead)) ∧
    ∀ (node : Positional) (tokens : Nat),
      Prints (printSlots registry node tokens shapes placed) low
        (trailSlots registry decorations shapes slots) new high

/-- List elements are placed, and what is placed for them prints as their walk. -/
def ElementsPrint (registry : Registry) (separator : Option String) (trees : List Decorated)
    (low : Nat) : Prop :=
  ∃ placed separators new high,
    Lays (placeElements registry separator.isSome trees) low (placed, separators) new high ∧
    placed.length = trees.length ∧ (separator = none → separators = []) ∧
    ∀ (tokens : Nat) (plan : ListPlan) (first : Bool) (closing : Option (List TriviaGroup))
      (whole : List CommentEntry) (state : State) (trail : List Step) (ahead : List CommentEntry),
      plan.separator = separator →
      Stands whole state low trail (Restore.table new ++ ahead) →
      (∀ row ∈ ahead, high < row.offset) →
      Closes plan.bound closing high ahead →
      ∃ after, (printElements registry tokens plan first separators placed).run state =
          .ok ((), after) ∧
        Stands whole after high (trail ++ trailElements registry separator closing trees) ahead

/-! ## The pieces -/

/-- A node prints as its trail if its slots do. -/
theorem treePrints_of_slots {kind : NodeKind} {decorations : Decorations}
    {slots : List DecoratedSlot} {shape : Shape} (known : registry.shape? kind = some shape)
    (low : Nat)
    (slotsPrint : SlotsPrint registry kind decorations shape.anchors slots
      (pointEnd decorations .start low)) :
    TreePrints registry (.node kind decorations slots) low := by
  obtain ⟨placed, new, middle, lays, -, prints⟩ := slotsPrint
  have anchors : registry.anchorsOf kind = shape.anchors := by simp [Registry.anchorsOf, known]
  have finish := lays_placeAnchor kind decorations .finish middle
  refine ⟨.node kind ⟨anchorOffset decorations .start low, anchorOffset decorations .finish middle⟩
    placed, pointPlaced kind decorations .start low ++ (new ++ anchorPlaced kind decorations
      .finish middle), anchorOffset decorations .finish middle, ?_, ?_⟩
  · rw [← anchors] at lays
    exact lays_enclosed lays
  · intro whole state trail ahead stands above
    simp only [table_append, List.append_assoc] at stands
    have entered := (stands.point kind).relaid (State.relaid_enter state kind)
      (State.table_enter state kind)
    obtain ⟨after, run, stands⟩ := prints _ state.tokens _ _ _ _ entered
      (finish.ascends.table_above above)
    refine ⟨_, run_tree known run, ?_⟩
    have finished : Stands whole { after with continuation := state.continuation } _ _ _ :=
      (stands.anchor kind).relaid ⟨rfl, rfl, rfl, id⟩ rfl
    simpa [Decorated.trail, anchors] using finished

/-- A slot with a token prints as its trail. -/
theorem slotPrints_token (kind : NodeKind) (decorations : Decorations) (shape : AnchorShape)
    (text : String) (low : Nat) :
    SlotPrints registry kind decorations shape (.token (some text)) low := by
  refine ⟨_, _, _, lays_placeSlot_token text low, .token text, ?_⟩
  intro node tokens following closing whole state trail ahead stands above _
  unfold printSlot
  exact prints_token kind decorations shape.anchor low text tokens shape.gap _ whole state trail
    ahead stands above

/-- An empty slot places and prints nothing. -/
theorem slotPrints_empty (kind : NodeKind) (decorations : Decorations) (shape : AnchorShape)
    (slot : DecoratedSlot) (placed : PositionalSlot) (low : Nat)
    (lays : Lays (placeSlot registry kind decorations shape slot) low placed [] low)
    (absent : slot.isPresent = false) (absent' : placed.isPresent = false)
    (print : ∀ node tokens following,
      printSlot registry node tokens shape following placed = pure ())
    (empty : ∀ closing, trailSlot registry decorations shape closing slot = []) :
    SlotPrints registry kind decorations shape slot low := by
  refine ⟨placed, [], low, lays, .empty absent absent', ?_⟩
  intro node tokens following closing whole state trail ahead stands _ _
  refine ⟨state, ?_, ?_⟩
  · rw [print]
    rfl
  · rw [empty, List.append_nil]
    exact stands

/-- A slot with a child prints as its trail if the child does. -/
theorem slotPrints_child (kind : NodeKind) (decorations : Decorations) (shape : AnchorShape)
    (child : Decorated) (low : Nat) (childPrints : TreePrints registry child low) :
    SlotPrints registry kind decorations shape (.child (some child)) low := by
  obtain ⟨placed, new, middle, lays, prints⟩ := childPrints
  have after := lays_placeAfter child.info .finish middle
  have point := lays_placePoint kind decorations shape.anchor
    (behind middle (trailing child))
  refine ⟨.child (some placed), new ++ ((rows middle (trailing child)).map .group ++
    pointPlaced kind decorations shape.anchor (behind middle (trailing child))),
    pointEnd decorations shape.anchor (behind middle (trailing child)), ?_, .child, ?_⟩
  · exact lays_placeSlot_child lays
  · intro node tokens following closing whole state trail ahead stands above _
    simp only [table_append, table_groups, List.append_assoc] at stands
    have asked := stands.relaid
      (State.relaid_askGap state tokens shape.gap (!beginsWithParen placed))
      (State.table_askGap state tokens shape.gap (!beginsWithParen placed))
    have behindChild := (after.ascends.append point.ascends).table_above above
    simp only [table_append, table_groups, List.append_assoc] at behindChild
    obtain ⟨final, run, stands⟩ := prints _ _ _ _ asked behindChild
    refine ⟨final, run_printSlot_child run, ?_⟩
    have passed := stands.pass.point kind
    simpa [trailSlot] using passed

/-- A slot with a list prints as its trail if the elements do. -/
theorem slotPrints_list (kind : NodeKind) (decorations : Decorations) (shape : AnchorShape)
    (layout : ListLayout) (isList : shape.slot = .list layout) (elements : List Decorated)
    (low : Nat) (elementsPrint : ElementsPrint registry layout.separator elements low)
    (filled : elements ≠ []) :
    SlotPrints registry kind decorations shape (.list elements ()) low := by
  obtain ⟨placed, separators, new, high, lays, length, -, prints⟩ := elementsPrint
  have filled' : placed ≠ [] := by
    intro empty
    simp only [empty, List.length_nil] at length
    exact filled (List.eq_nil_of_length_eq_zero length.symm)
  refine ⟨.list placed separators, new, high, ?_, .list filled filled', ?_⟩
  · have separated : layout.separator.isSome = isSeparated shape.slot := by rw [isList]; rfl
    rw [separated] at lays
    exact lays_placeSlot_list lays
  · intro node tokens following closing whole state trail ahead stands above closes
    obtain ⟨after, run, stands⟩ := prints tokens (listPlan node shape layout following) true
      closing whole state trail ahead rfl stands above closes
    refine ⟨_, run_printSlot_list isList run, ?_⟩
    have trailEq : trailSlot registry decorations shape closing (.list elements ()) =
        trailElements registry layout.separator closing elements := by
      simp [trailSlot, isList, SlotShape.separator?]
    rw [trailEq]
    split
    · exact stands.relaid (State.relaid_askLine after) rfl
    · exact stands

/-- Slots print as their trail if the first one does and the others do. -/
theorem slotsPrint_cons (kind : NodeKind) (decorations : Decorations) (shape : AnchorShape)
    (shapes : List AnchorShape) (slot : DecoratedSlot) (slots : List DecoratedSlot) (low : Nat)
    (slotPrints : SlotPrints registry kind decorations shape slot low)
    (slotsPrint : ∀ middle, SlotsPrint registry kind decorations shapes slots middle) :
    SlotsPrint registry kind decorations (shape :: shapes) (slot :: slots) low := by
  obtain ⟨placed, new, middle, lays, opens, prints⟩ := slotPrints
  obtain ⟨placedRest, newRest, high, laysRest, closes, printsRest⟩ := slotsPrint middle
  refine ⟨placed :: placedRest, new ++ newRest, high, lays_placeSlots_cons lays laysRest, ?_, ?_⟩
  · intro ahead above
    have beyond := laysRest.ascends.table_above above
    rw [table_append, List.append_assoc]
    cases opens with
    | token text =>
      refine ⟨anchorOffset decorations shape.anchor low,
        rows (anchorOffset decorations shape.anchor low) (decorations.ofAnchor shape.anchor).after ++
          (Restore.table newRest ++ ahead), rfl, ?_,
        lt_anchorOffset decorations shape.anchor low, ?_, ?_⟩
      · simp only [pointPlaced, anchorPlaced, table_append, table_groups, table_anchor,
          List.append_assoc, List.nil_append]
      · intro row mem
        exact Nat.lt_succ_of_le (rows_le_behind mem)
      · intro row mem
        rcases List.mem_append.mp mem with here | there
        · exact lt_rows here
        · have le := (lays_placeAfter decorations shape.anchor
            (anchorOffset decorations shape.anchor low)).ascends.le
          exact Nat.lt_of_le_of_lt le (beyond row there)
    | empty absent absent' =>
      have closing : closing? decorations (shape :: shapes) (slot :: slots) =
          closing? decorations shapes slots := by
        cases slot with
        | token content => cases content <;> simp_all [closing?, Slot.isPresent]
        | child content => simp [closing?, absent]
        | list elements separators => simp [closing?, absent]
      have next : nextToken? (placed :: placedRest) = nextToken? placedRest := by
        cases placed with
        | token content => cases content <;> simp_all [nextToken?, Slot.isPresent]
        | child content => simp [nextToken?, absent']
        | list elements separators => simp [nextToken?, absent']
      rw [closing, next]
      exact closes ahead above
    | child => simp [closing?, nextToken?, Slot.isPresent, Closes]
    | list filled filled' => simp [closing?, nextToken?, Slot.isPresent, Closes, filled, filled']
  · intro node tokens whole state trail ahead stands above
    rw [table_append, List.append_assoc] at stands
    have asked := stands.relaid
      (State.relaid_askContinuation state tokens node.kind shape.anchor placed)
      (State.table_askContinuation state tokens node.kind shape.anchor placed)
    obtain ⟨between, run, stands⟩ := prints node tokens placedRest _ _ _ _ _ asked
      (laysRest.ascends.table_above above) (closes ahead above)
    obtain ⟨after, run', stands⟩ := printsRest node tokens whole between _ ahead stands above
    refine ⟨after, run_printSlots run run', ?_⟩
    simpa [trailSlots] using stands

/-- Writing a separator, or leaving it out behind the last element, carries the printer
over its offset. -/
theorem stands_separator {whole : List CommentEntry} {state : State} {n : Nat} {trail : List Step} {tree : Decorated}
    {ahead : List CommentEntry} (plan : ListPlan) (text : String) (last : Bool)
    (closing : Option (List TriviaGroup)) (separator : plan.separator = some text)
    (stands : Stands whole state n trail (rows (n + 1) (trailing tree) ++ ahead))
    (above : ∀ row ∈ ahead, n + 1 ≤ row.offset)
    (closes : last = true → Closes plan.bound closing (behind (n + 1) (trailing tree)) ahead) :
    Stands whole (state.separator plan (n + 1) last) (n + 1)
      (trail ++ separatorSteps (some text) (!last || closesLater tree closing))
      (rows (n + 1) (trailing tree) ++ ahead) := by
  have beyond : ∀ row ∈ rows (n + 1) (trailing tree) ++ ahead, n + 1 ≤ row.offset := by
    intro row mem
    rcases List.mem_append.mp mem with here | there
    · exact Nat.le_of_lt (lt_rows here)
    · exact above row there
  have decision : (!last || plan.bound.any (state.breaksBetween (n + 1))) =
      (!last || closesLater tree closing) := by
    cases last with
    | false => rfl
    | true => rw [breaksBetween_eq_closesLater stands (closes rfl)]
  simp only [State.separator, separator, decision]
  by_cases written : (!last || closesLater tree closing) = true
  · rw [if_pos written, written]
    exact stands.token (Nat.lt_succ_self n) beyond text
  · rw [if_neg written]
    simp only [Bool.not_eq_true] at written
    rw [written]
    simpa [separatorSteps] using stands.mono (Nat.le_succ n)

/-- List elements print as their trail if the first one does and the others do. -/
theorem elementsPrint_cons (separator : Option String) (tree : Decorated)
    (trees : List Decorated) (low : Nat) (treePrints : TreePrints registry tree low)
    (elementsPrint : ∀ middle, ElementsPrint registry separator trees middle) :
    ElementsPrint registry separator (tree :: trees) low := by
  obtain ⟨placed, new, middle, lays, prints⟩ := treePrints
  cases separator with
  | none =>
    obtain ⟨placedRest, separators, newRest, high, laysRest, length, bare, printsRest⟩ :=
      elementsPrint (behind middle (trailing tree))
    obtain rfl := bare rfl
    have after := lays_placeAfter tree.info .finish middle
    refine ⟨placed :: placedRest, [],
      new ++ ((rows middle (trailing tree)).map .group ++ newRest), high, ?_, by simp [length],
      fun _ => rfl, ?_⟩
    · exact lays_placeElements_unseparated lays laysRest
    · intro tokens plan first closing whole state trail ahead noSeparator stands above closes
      simp only [table_append, table_groups, List.append_assoc] at stands
      have asked := stands.relaid (State.relaid_askElement state tokens plan first)
        (State.table_askElement state tokens plan first)
      have beyond := (after.ascends.append laysRest.ascends).table_above above
      simp only [table_append, table_groups, List.append_assoc] at beyond
      obtain ⟨between, run, stands⟩ := prints _ _ _ _ asked beyond
      obtain ⟨final, run', stands⟩ := printsRest tokens plan false closing whole between _ ahead
        noSeparator stands.pass above closes
      refine ⟨final, run_printElements run ?_, ?_⟩
      · simpa [State.separator, noSeparator] using run'
      · simpa [trailElements, separatorSteps] using stands
  | some text =>
    have point := lays_place .sameLine .separator (fun _ => rfl) middle
    obtain ⟨placedRest, separators, newRest, high, laysRest, length, -, printsRest⟩ :=
      elementsPrint (behind (middle + 1) (trailing tree))
    have after := lays_placeAfter tree.info .finish (middle + 1)
    refine ⟨placed :: placedRest, .point (middle + 1) :: separators,
      new ++ ([.separator (middle + 1)] ++ ((rows (middle + 1) (trailing tree)).map .group ++
        newRest)), high, ?_, by simp [length], by simp, ?_⟩
    · exact lays_placeElements_separated lays laysRest
    · intro tokens plan first closing whole state trail ahead separator stands above closes
      simp only [table_append, table_groups, table_separator, List.nil_append,
        List.append_assoc] at stands
      have asked := stands.relaid (State.relaid_askElement state tokens plan first)
        (State.table_askElement state tokens plan first)
      have beyond := (point.ascends.append (after.ascends.append laysRest.ascends)).table_above above
      simp only [table_append, table_groups, table_separator, List.nil_append,
        List.append_assoc] at beyond
      obtain ⟨between, run, stands⟩ := prints _ _ _ _ asked beyond
      have further : ∀ row ∈ Restore.table newRest ++ ahead, middle + 1 ≤ row.offset := by
        intro row mem
        have lt := laysRest.ascends.table_above above row mem
        exact Nat.le_trans after.ascends.le (Nat.le_of_lt lt)
      have separated := stands_separator plan text placedRest.isEmpty closing separator stands
        further (by
          intro last
          have none : trees = [] :=
            List.eq_nil_of_length_eq_zero (length ▸ by simpa using last)
          subst none
          obtain ⟨rfl, rfl⟩ := laysRest.of_pure
          exact closes)
      obtain ⟨final, run', stands⟩ := printsRest tokens plan false closing whole _ _ ahead
        separator separated.pass above closes
      have same : placedRest.isEmpty = trees.isEmpty := by
        rw [Bool.eq_iff_iff, List.isEmpty_iff_length_eq_zero, List.isEmpty_iff_length_eq_zero,
          length]
      refine ⟨final, run_printElements run ?_, ?_⟩
      · simpa using run'
      · simpa [trailElements, same] using stands

/-! ## The whole tree -/

mutual
/-- **Printing a tree.** What is placed for a tree whose nodes fit prints as its trail. -/
theorem tree_prints : ∀ (tree : Decorated), Faultless registry tree.preorder →
    ∀ low, TreePrints registry tree low
  | .node kind decorations slots, faultless, low => by
      rw [SlotTree.preorder] at faultless
      obtain ⟨here, below⟩ := List.forall_mem_cons.mp faultless
      obtain ⟨shape, known, -, fits⟩ := SlotTree.fault?_eq_none_iff.mp here
      have kinds : ∀ pair ∈ shape.anchors.zip slots, pair.2.fits pair.1.slot = true :=
        fun pair mem => (fits pair mem).holds.kind
      exact treePrints_of_slots known low
        (slots_print kind decorations shape.anchors slots kinds below _)

theorem slots_print (kind : NodeKind) (decorations : Decorations) :
    ∀ (shapes : List AnchorShape) (slots : List DecoratedSlot),
      (∀ pair ∈ shapes.zip slots, pair.2.fits pair.1.slot = true) →
      Faultless registry (SlotTree.preorderSlots slots) →
      ∀ low, SlotsPrint registry kind decorations shapes slots low
  | shapes, [], _, _, low => by
      refine ⟨[], [], low, lays_placeSlots_nil shapes low, ?_, ?_⟩
      · intro ahead _
        cases shapes <;> simp [closing?, nextToken?, Closes]
      · intro node tokens whole state trail ahead stands _
        refine ⟨state, ?_, ?_⟩
        · unfold printSlots
          rfl
        · simpa [trailSlots] using stands
  | [], slot :: slots, _, _, low => by
      refine ⟨[], [], low, lays_placeSlots_shapeless (slot :: slots) low, ?_, ?_⟩
      · intro ahead _
        simp [closing?, nextToken?, Closes]
      · intro node tokens whole state trail ahead stands _
        refine ⟨state, ?_, ?_⟩
        · unfold printSlots
          rfl
        · simpa [trailSlots] using stands
  | shape :: shapes, slot :: slots, fits, faultless, low => by
      simp only [List.zip_cons_cons, List.mem_cons, forall_eq_or_imp] at fits
      refine slotsPrint_cons kind decorations shape shapes slot slots low
        (slot_prints kind decorations shape slot fits.1 ?_ low) fun middle =>
          slots_print kind decorations shapes slots fits.2 ?_ middle
      · intro node mem
        exact faultless node (by cases slot with
          | token _ => simp [slotNodes] at mem
          | child content => cases content <;> simp_all [slotNodes, SlotTree.preorderSlots]
          | list elements _ => simp_all [slotNodes, SlotTree.preorderSlots])
      · intro node mem
        exact faultless node (by cases slot with
          | token _ => simpa [SlotTree.preorderSlots] using mem
          | child content => cases content <;> simp_all [SlotTree.preorderSlots]
          | list elements _ => simp_all [SlotTree.preorderSlots])

theorem slot_prints (kind : NodeKind) (decorations : Decorations) (shape : AnchorShape) :
    ∀ (slot : DecoratedSlot), slot.fits shape.slot = true →
      Faultless registry (slotNodes slot) →
      ∀ low, SlotPrints registry kind decorations shape slot low
  | .token (some text), _, _, low => slotPrints_token kind decorations shape text low
  | .token none, _, _, low =>
      slotPrints_empty kind decorations shape (.token none) (.token none) low
        (lays_placeSlot_absent low) rfl rfl (by intros; unfold printSlot; rfl)
        (by intros; unfold trailSlot; rfl)
  | .child none, _, _, low =>
      slotPrints_empty kind decorations shape (.child none) (.child none) low
        (lays_placeSlot_vacant low) rfl rfl (by intros; unfold printSlot; rfl)
        (by intros; unfold trailSlot; rfl)
  | .child (some child), _, faultless, low =>
      slotPrints_child kind decorations shape child low (tree_prints child faultless low)
  | .list [] _, _, _, low =>
      slotPrints_empty kind decorations shape (.list [] ()) (.list [] []) low
        (lays_placeSlot_list (lays_placeElements_nil _ low)) rfl rfl
        (by intros; unfold printSlot; cases shape.slot <;> simp [printElements])
        (by intros; unfold trailSlot trailElements; rfl)
  | .list (tree :: trees) _, fits, faultless, low => by
      cases isList : shape.slot with
      | list layout =>
        exact slotPrints_list kind decorations shape layout isList (tree :: trees) low
          (elements_print layout.separator (tree :: trees) faultless low) (by simp)
      | token text => simp [isList, Slot.fits] at fits
      | child => simp [isList, Slot.fits] at fits

theorem elements_print (separator : Option String) :
    ∀ (trees : List Decorated), Faultless registry (SlotTree.preorderElements trees) →
      ∀ low, ElementsPrint registry separator trees low
  | [], _, low => by
      refine ⟨[], [], [], low, lays_placeElements_nil _ low, rfl, fun _ => rfl, ?_⟩
      intro tokens plan first closing whole state trail ahead _ stands _ _
      refine ⟨state, ?_, ?_⟩
      · unfold printElements
        rfl
      · simpa [trailElements] using stands
  | tree :: trees, faultless, low => by
      rw [SlotTree.preorderElements] at faultless
      obtain ⟨first, rest⟩ := List.forall_mem_append.mp faultless
      exact elementsPrint_cons separator tree trees low (tree_prints tree first low)
        fun middle => elements_print separator trees rest middle
end

/-! ## Restored trees -/

/-- Flushing everything tells the rest of the trail. -/
theorem Stands.flush_all {whole : List CommentEntry} {state : State} {n : Nat}
    {trail : List Step} (stands : Stands whole state n trail []) {offset : Nat}
    (small : ∀ row ∈ whole, row.offset < offset) : (state.flush offset).Tells trail := by
  obtain ⟨gone, pending, told, parts, split, -, tells, all⟩ := stands
  have below : ∀ row ∈ pending, decide (row.offset < offset) = true := by
    intro row mem
    have := small row (by simp [parts, mem])
    simpa using this
  have flushed := tells.flushRows offset state.table
  rwa [split, takeWhile_append_of_cut below (by simp), all, ← split] at flushed

/-- A tree whose nodes fit is printed.  The printer tells its trail, as long as no row of the
comment table lies beyond the last offset. -/
theorem exists_tells {tree : DecoratedTree} (faultless : Faultless registry tree.root.preorder) :
    ∃ state : State,
      Print.marks registry (tree.place registry).root (tree.place registry).comments =
        .ok state.marks.toList ∧
      ((∀ row ∈ (tree.place registry).comments, row.offset < lastOffset) →
        state.Tells (fullTrail registry tree.root)) := by
  obtain ⟨placed, new, high, lays, prints⟩ := tree_prints tree.root faultless 0
  have whole : Lays (placeTree registry tree.root) 0 placed
      (new ++ (rows high (trailing tree.root)).map .group) (behind high (trailing tree.root)) :=
    lays.bind ((lays_placeAfter tree.root.info .finish high).andReturn fun _ => placed)
  have root : (tree.place registry).root = placed := congrArg Prod.fst (whole.run #[])
  have log : (tree.place registry).log =
      new ++ (rows high (trailing tree.root)).map Placed.group := by
    refine (congrArg (fun result => result.2.log.toList) (whole.run #[])).trans ?_
    simp
  have comments : (tree.place registry).comments =
      Restore.table new ++ rows high (trailing tree.root) := by
    show Restore.table (tree.place registry).log = _
    rw [log, table_append, table_groups]
  rw [root, comments]
  obtain ⟨after, run, stands⟩ := prints _ (State.start _) [] (rows high (trailing tree.root))
    (Stands.start _) fun row mem => lt_rows mem
  rw [← List.append_nil (rows high (trailing tree.root))] at stands
  refine ⟨after.flush lastOffset, ?_, fun small => ?_⟩
  · unfold Print.marks
    rw [run]
    rfl
  · refine stands.pass.flush_all ?_
    simpa using small

/-- A tree whose nodes fit is printed.  The items that are written are those of its walk, as
long as no row of the comment table lies beyond the last offset. -/
theorem exists_marks {tree : DecoratedTree} (faultless : Faultless registry tree.root.preorder) :
    ∃ marks, Print.marks registry (tree.place registry).root (tree.place registry).comments =
        .ok marks ∧
      ((∀ row ∈ (tree.place registry).comments, row.offset < lastOffset) →
        marks.filter Mark.isItem = fullWalk registry tree.root) := by
  obtain ⟨state, printed, tells⟩ := exists_tells faultless
  refine ⟨_, printed, fun small => ?_⟩
  rw [← written_fullTrail]
  exact (tells small).items

theorem exists_marks_of_faultless {tree : DecoratedTree}
    (faultless : Faultless registry tree.root.preorder)
    (small : ∀ row ∈ (tree.place registry).comments, row.offset < lastOffset) :
    ∃ marks, Print.marks registry (tree.place registry).root (tree.place registry).comments =
        .ok marks ∧
      marks.filter Mark.isItem = fullWalk registry tree.root := by
  obtain ⟨marks, printed, walked⟩ := exists_marks faultless
  exact ⟨marks, printed, walked small⟩

/-- **Printing follows the walk.** A decorated tree that is restored and whose offsets
stay below the last one is printed as its tokens and comments in walk order, with nothing
but spaces, tabs and line feeds between them.  The text is read off the marks, before
blanks are trimmed from its end. -/
theorem print_eq_finish_walk (tree : DecoratedTree) (restored : Restored)
    (accepted : (tree.restore .standard).result = .ok restored)
    (small : ∀ thing ∈ restored.log, thing.offset < lastOffset) :
    ∃ marks, Print.marks .standard restored.root restored.comments = .ok marks ∧
      GoTrivia.print tree = .ok (Print.finish marks) ∧
      marks.filter Mark.isItem = fullWalk .standard tree.root := by
  obtain ⟨faultless, rfl⟩ := restore_eq_ok_iff.mp accepted
  obtain ⟨marks, printed, walked⟩ := exists_marks_of_faultless faultless (by
    intro row mem
    obtain ⟨thing, inside, same⟩ := mem_table_offset mem
    exact same ▸ small thing inside)
  refine ⟨marks, printed, ?_, walked⟩
  show ((tree.restore .standard).result >>= _) = _
  rw [accepted]
  show (Print.marks _ _ _).map _ = _
  rw [printed]
  rfl

/-- A call whose only argument is followed by a comment that ends its line. -/
def commentedCall : DecoratedTree :=
  ⟨.modifyDecoration
      (Decorated.call (.ident "f")
        [.modifyDecoration (.ident "a") .finish fun _ => ⟨[], [.comment .sameLine "// one"]⟩])
      .rparen fun _ => ⟨[.bare .newline], []⟩, .empty⟩

theorem commentedCall_printed :
    ∃ marks, GoTrivia.print commentedCall = .ok (Print.finish marks) ∧
      marks.filter Mark.isItem =
        [.token "f", .token "(", .token "a", .token ",", .comment "// one", .token ")"] := by
  obtain ⟨marks, -, printed, walked⟩ :=
    print_eq_finish_walk commentedCall (commentedCall.place .standard)
      (restore_eq_ok_iff.mpr ⟨by decide +kernel, rfl⟩) (by decide +kernel)
  exact ⟨marks, printed, walked⟩

end GoTrivia

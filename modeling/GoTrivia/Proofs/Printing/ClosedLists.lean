import GoTrivia.Proofs.Decorating.Parsed
import GoTrivia.Proofs.Grammar.LineLists
import GoTrivia.Proofs.Printing.Fitted
import GoTrivia.Proofs.Printing.LastTokens
import GoTrivia.Proofs.Printing.ListEnds
import GoTrivia.Proofs.Printing.Reaching
import GoTrivia.Proofs.Restoring.Passing

/-!
# Closed lists of texts

What is printed of a closed list depends on where the script stands behind the last element, and on
the rows that are still to come there.  In a restored text both are as they should be: the element
ends with a token that shows, and no row up to the place of the separator ends a line.  So the last
element has a separator exactly if something starts a line behind it (`printed_marks_of_restore`).

**Last tokens.** No element of a list on one line ends with a list on lines, because such a list is
followed by the token that closes it, except in files and clauses, and clauses stand in blocks only.
-/

set_option autoImplicit false

namespace GoTrivia

open Print (isLines Mark)
open Restore Decorated Positional
open SlotTree (tokensSlots tokensSlot tokensElements preorderSlots preorderElements)

/-! ## Where lists on lines may be last -/

/-- Only blocks hold nodes that may end with a list on lines. -/
theorem block_of_isOpenEnded {text : String} (clean : (parse text).diagnostics = []) :
    ∀ node ∈ (parse text).tree.root.preorder,
      ∀ pair ∈ (standardShape node.kind).anchors.zip node.slots, ∀ tree ∈ pair.2.trees,
        tree.kind.isOpenEnded = true → node.kind = .blockStmt ∧ pair.1.anchor = .list := by
  intro node mem pair paired tree held openEnded
  obtain ⟨place, least, grown⟩ := grown_of_mem text node mem
  obtain ⟨-, each⟩ := List.forall₂_iff_zip.mp grown.fills
  obtain ⟨index, found⟩ := List.mem_iff_getElem?.mp held
  have below := (each paired).below index tree found
  obtain ⟨tokens, -, -, content, -⟩ :=
    (spellsFile_parse (lawful_lex text) clean).readIn node mem
  have inside : tree ∈ preorderSlots node.slots :=
    SlotTree.mem_preorderSlots_of_mem_trees (List.of_mem_zip paired).2 held
  obtain ⟨_, -, spells⟩ := content.nodes List.infix_rfl tree inside
  have isClause : tree.kind = .caseClause := by
    cases spells with
    | @node kind _ _ _ _ _ _ _ _ _ notFile =>
      cases kind <;> first | rfl | exact (notFile rfl).elim | cases openEnded
  cases below with
  | operator => cases isClause
  | node _ _ _ lined => exact Grammar.eq_list_of_isLine (lined isClause)

/-- A list on lines is followed by the token that closes it. -/
theorem silent_of_closesList {free : Anchor → String → Prop} {present : Anchor → Bool}
    {kind : NodeKind} {style : ListStyle} {shapes : List AnchorShape} {slots : List PositionalSlot}
    (closes : closesList kind style shapes = true)
    (fitted : List.Forall₂ (Fitted free present) shapes slots) (silent : tokensSlots slots = [])
    (grouped : style = .grouped → present .lparen = true) : kind.isOpenEnded = true := by
  cases fitted with
  | nil =>
    simp only [closesList, Bool.or_eq_true, beq_iff_eq] at closes
    rcases closes with rfl | rfl <;> rfl
  | @cons closing slot shapes slots here others =>
    obtain ⟨rfl, isToken⟩ := only_of_closesList closes
    simp only [closesList, Bool.and_eq_true, Bool.or_eq_true, beq_iff_eq] at closes
    -- The token must be there, but its slot has none.
    have absent : present closing.anchor = false := by
      rw [← here.own]
      have kind := here.kind
      rw [tokensSlots, List.append_eq_nil_iff] at silent
      cases shape : closing.slot with
      | token text =>
        rw [shape] at kind
        cases slot with
        | token content =>
          cases content with
          | none => rfl
          | some lexeme => cases silent.1
        | child | list => cases kind
      | child | list => simp [shape] at isToken
    rcases closes.1.2 with required | ⟨isGrouped, together⟩
    · cases absent.symm.trans (here.required required)
    · cases absent.symm.trans ((here.together _ together).trans (grouped isGrouped))

/-- The list of a block is one on lines. -/
theorem onLines_block : ∀ shape ∈ (standardShape .blockStmt).anchors, shape.anchor = .list →
    ∃ layout, shape.slot = .list layout ∧ layout.style = .lines := by
  intro shape mem isList
  change shape ∈ [_, _, _] at mem
  simp only [List.mem_cons, List.not_mem_nil, or_false] at mem
  rcases mem with rfl | rfl | rfl
  · cases isList
  · exact ⟨_, rfl, rfl⟩
  · cases isList

/-- A node that fits its shape ends with a token, not with a list on lines. -/
theorem halting_of_fits {free : FreeTexts} {node : Positional} (fits : FitsShape free node)
    (filled : node.tokens ≠ [])
    (blocks : ∀ pair ∈ (standardShape node.kind).anchors.zip node.slots, ∀ tree ∈ pair.2.trees,
      tree.kind.isOpenEnded = true → node.kind = .blockStmt ∧ pair.1.anchor = .list) :
    Halting .standard node := by
  obtain ⟨present, pairs⟩ := fits
  refine ⟨filled, pairs.length_eq, ?_⟩
  intro closed shape shapes slot slots isShapes isSlots lengths silent
  have zipped : List.Forall₂ (fun shape slot => (shape, slot) ∈
      (standardShape node.kind).anchors.zip node.slots) (standardShape node.kind).anchors node.slots :=
    List.forall₂_iff_zip.mpr ⟨pairs.length_eq, id⟩
  have lengths : (shape :: shapes).length = (slot :: slots).length := congrArg Nat.succ lengths
  obtain ⟨fitted, others⟩ := List.forall₂_cons.mp (forall₂_suffix pairs isShapes isSlots lengths)
  obtain ⟨mem, -⟩ := List.forall₂_cons.mp (forall₂_suffix zipped isShapes isSlots lengths)
  have onLine (layout : ListLayout) (isList : shape.slot = .list layout) :
      isLines node layout.style = false := by
    rw [Bool.eq_false_iff]
    intro lines
    have closes : closesLists node.kind (shape :: shapes) = true := by
      rw [List.suffix_iff_eq_drop.mp isShapes]
      exact closesLists_drop (closesLists_standardShape node.kind) _
    have style : layout.style ≠ .inline := fun inline => by simp [inline, isLines] at lines
    simp only [closesLists, isList, Bool.and_eq_true, Bool.or_eq_true, beq_iff_eq, style,
      false_or] at closes
    refine Bool.eq_false_iff.mp closed (silent_of_closesList closes.1.2 others silent fun grouped => ?_)
    -- A grouped list is on lines only behind a parenthesis.
    rw [grouped, isLines, SlotTree.token?] at lines
    split at lines
    · next lexeme found =>
      obtain ⟨opening, isOpening, paired⟩ := SlotTree.exists_of_slot? found
      have own := ((List.forall₂_iff_zip.mp pairs).2 paired).own
      rw [isOpening] at own
      exact own.symm.trans lines
    · cases lines
  refine ⟨fitted.kind, fun layout isList _ => onLine layout isList, fun tree held => ?_⟩
  rw [Bool.eq_false_iff]
  intro openEnded
  obtain ⟨isBlock, isList⟩ := blocks _ mem tree held openEnded
  obtain ⟨layout, isLayout, lines⟩ := onLines_block shape (isBlock ▸ (List.of_mem_zip mem).1) isList
  have none := onLine layout isLayout
  rw [lines] at none
  cases none

theorem trees_mapSlot {ν τ σ ν' τ' σ' : Type} (onNode : ν → ν') (onToken : τ → τ') (onList : σ → σ')
    (slot : Slot ν τ σ) : (SlotTree.mapSlot onNode onToken onList slot).trees =
      slot.trees.map (SlotTree.map onNode onToken onList) := by
  cases slot with
  | token => rfl
  | child content => cases content <;> rfl
  | list elements separators => simp [SlotTree.mapSlot, Slot.trees]

/-- In a tree that looks like that of a text, only blocks hold nodes that may end with a list on
lines. -/
theorem block_of_erase {text : String} (clean : (parse text).diagnostics = [])
    {root : Positional} (same : root.erase = (parse text).tree.root.erase) :
    ∀ node ∈ root.preorder, ∀ pair ∈ (standardShape node.kind).anchors.zip node.slots,
      ∀ tree ∈ pair.2.trees, tree.kind.isOpenEnded = true →
        node.kind = .blockStmt ∧ pair.1.anchor = .list := by
  intro node mem pair paired tree held openEnded
  obtain ⟨original, isNode, alike⟩ := exists_of_erase same node mem
  have blocks := block_of_isOpenEnded clean original isNode
  obtain ⟨kind, span, slots⟩ := node
  obtain ⟨kind', span', slots'⟩ := original
  rw [Positional.erase, Positional.erase, SlotTree.map, SlotTree.map, SlotTree.mapSlots_eq_map,
    SlotTree.mapSlots_eq_map] at alike
  obtain ⟨rfl, -, alike⟩ := SlotTree.node.inj alike
  have erased := List.mem_map_of_mem (f := Prod.map id erasePositional) paired
  rw [← List.zip_map_right] at erased
  have erased : (pair.1, erasePositional pair.2) ∈
      (standardShape kind').anchors.zip (slots'.map erasePositional) := alike ▸ erased
  rw [List.zip_map_right] at erased
  obtain ⟨pair', paired', isPair⟩ := List.mem_map.mp erased
  obtain ⟨shape, slot⟩ := Prod.mk.inj isPair
  have trees := congrArg Slot.trees slot
  rw [trees_mapSlot, trees_mapSlot] at trees
  obtain ⟨tree', held', alikeTree⟩ := List.mem_map.mp (trees ▸ List.mem_map_of_mem held)
  have kinds : tree'.kind = tree.kind := by
    cases tree
    cases tree'
    exact (SlotTree.node.inj alikeTree).1
  obtain ⟨isBlock, isList⟩ := blocks pair' paired' tree' held' (kinds ▸ openEnded)
  exact ⟨isBlock, shape ▸ isList⟩

/-- Whether no list with separators has a gap with a line behind it. -/
def closesInline : List AnchorShape → Bool
  | [] => true
  | shape :: shapes =>
    (shape.slot.separator?.isNone || shapes.all (·.gap != .line)) && closesInline shapes

theorem closesInline_standardShape (kind : NodeKind) :
    closesInline (standardShape kind).anchors = true := by
  cases kind <;> decide

theorem closesInline_suffix {shapes whole : List AnchorShape} (closes : closesInline whole = true)
    (isSuffix : shapes <:+ whole) : closesInline shapes = true := by
  induction whole with
  | nil => rwa [List.suffix_nil.mp isSuffix]
  | cons shape whole ih =>
    rcases List.suffix_cons_iff.mp isSuffix with rfl | later
    · exact closes
    · exact ih (Bool.and_eq_true_iff.mp closes).2 later

/-! ## Restored texts -/

/-- The lists of a placed tree are quiet if the tree stands where that of a text does. -/
theorem quiet_place {text : String} {layout : Layout} {line : Nat → Nat} {length : Nat}
    (lawful : layout.Lawful (.ofText text) line) (comments : layout.comments = (lex text).comments)
    {root : Positional} (spells : Grammar.SpellsFile length root (lex text).tokens)
    {tree : DecoratedTree} (has : layout.HasTree 0 root tree.root) :
    ∀ node ∈ (tree.place .standard).root.preorder, QuietNode (tree.place .standard).comments node := by
  have quiet : TreeQuiet tree.root := by
    generalize all : (lex text).tokens = tokens at spells
    cases spells with
    | @file slots front first last content filled begins isEnd =>
      obtain ⟨decorations, slots', same, -, slots, closing⟩ := has.slots
      have inside : front <:+: (lex text).tokens := all ▸ (List.prefix_append _ _).isInfix
      rw [same]
      exact treeQuiet_of_slots (Layout.slotsQuiet lawful comments decorations content inside slots
        (Layout.isSeparator_eq_false closing.next?))
  obtain ⟨placed, new, high, lays, quiet⟩ := quiet 0
  obtain ⟨isRoot, log, -⟩ := place_of_lays lays
  have after := lays_placeAfter tree.root.info .finish high
  rw [isRoot, Restored.comments, log]
  exact quiet _ (Covers.left (fun row mem _ _ => mem) after.ascends)

section Restored

variable {text : String} (clean : (parse text).diagnostics = []) {tree : DecoratedTree}
  (decorated : decorate text = .ok tree) {restored : Restored}
  (accepted : (tree.restore .standard).result = .ok restored)
include clean decorated accepted

/-- A restored text looks like the text. -/
theorem erase_of_restore : restored.root.erase = (parse text).tree.root.erase := by
  rw [decorate_of_clean clean] at decorated
  obtain ⟨faultless, rfl⟩ := restore_eq_ok_iff.mp accepted
  exact (copies_place faultless).erase.trans (erase_of_decorate decorated).1

theorem halting_of_restore : ∀ node ∈ restored.root.preorder, Halting .standard node := by
  have same := erase_of_restore clean decorated accepted
  intro node mem
  exact halting_of_fits
    (@allFit_of_restore (fun _ _ _ => True) _ _ accepted (fun _ _ _ _ _ _ _ => trivial) node mem)
    (tokens_ne_nil_of_erase clean same node mem) (block_of_erase clean same node mem)

omit accepted in
/-- The decorated tree stands in the layout of the text. -/
theorem hasTree_decorate : (Layout.ofText text).HasTree 0 (parse text).tree.root tree.root := by
  obtain ⟨assignments, assigned, built⟩ := exists_decorate clean
  have isRoot : tree.root = (Decorate.rebuild .standard (parse text).tree.root
      (CommentGap.decorations none assignments)).1 := by
    rw [Except.ok.inj (decorated.symm.trans built)]
  have kinded := kinded_parse clean
  have lawful := Layout.lawful_ofText (indexes_ofText text) clean
  have filled : ∀ node ∈ (parse text).tree.root.preorder, node.tokens ≠ [] :=
    fun node mem => (edgesHold_of_mem clean node mem).1
  have whole : (Layout.ofText text).fragments = (parse text).tree.root.fragments := by
    simp only [Layout.ofText]
  have comments : (Layout.ofText text).comments = (lex text).comments := by simp only [Layout.ofText]
  rw [← comments] at assigned
  generalize Layout.ofText text = layout at lawful whole assigned ⊢
  generalize (parse text).tree.root = root at whole assigned kinded filled isRoot ⊢
  have points := points_rebuild Registry.distinct_standard kinded
    (CommentGap.conserved_decorations assigned).1
  rw [← whole] at assigned
  rw [isRoot]
  refine ⟨twin_rebuild kinded _, ⟨?_, ?_⟩, filled⟩
  · rw [whole]
    exact List.prefix_rfl
  · rw [points, lawful.decorations_none assigned, whole]

/-- **Quiet lists.** No row of a restored text that stands between the last token of a separated list
and its last separator ends a line. -/
theorem quiet_of_restore : ∀ node ∈ restored.root.preorder, QuietNode restored.comments node := by
  obtain ⟨-, rfl⟩ := restore_eq_ok_iff.mp accepted
  have comments : (Layout.ofText text).comments = (lex text).comments := by simp only [Layout.ofText]
  exact quiet_place (Layout.lawful_ofText (indexes_ofText text) clean) comments
    (spellsFile_parse (lawful_lex text) clean) (hasTree_decorate clean decorated)

omit clean decorated in
/-- The rows of a restored tree stand in order. -/
theorem pairwise_comments_of_restore : restored.comments.Pairwise (·.offset < ·.offset) := by
  obtain ⟨-, rfl⟩ := restore_eq_ok_iff.mp accepted
  obtain ⟨high, ascends, -⟩ := exists_log_place tree .standard
  refine ascends.sorted.filterMap Placed.entry? fun thing next before row isRow later isLater => ?_
  cases thing <;> cases isRow
  cases next <;> cases isLater
  exact before

namespace ClosedList

variable (list : ClosedList .standard restored.root restored.comments)

/-- **Settled ends.** In a restored text, a closed list ends with a token that shows, and nothing asks
for a line between this and the place of the last separator. -/
theorem endsOnLine_of_restore : seen list.opened.past = true ∧ list.EndsOnLine := by
  obtain ⟨inside, suffix⟩ := inside_of_reached list.reached
  obtain ⟨isNode, front, isShapes, isSlots⟩ := inside
  have paired : (list.shape, .list (list.element :: list.elements) list.separators) ∈
      (Registry.standard.anchorsOf list.node.kind).zip list.node.slots := by
    rw [isShapes, isSlots, List.zip_append (by simp), List.zip_cons_cons]
    exact List.mem_append_right _ List.mem_cons_self
  have separated : Restore.isSeparated list.shape.slot = true := by
    rw [list.isList, Restore.isSeparated, list.isSeparated]
    rfl
  obtain ⟨last, isLast, lexeme, isLexeme, shows, still⟩ :=
    quiet_of_restore clean decorated accepted list.node isNode _ paired separated
  -- Elements that may end with a list on lines stand in blocks.
  have closed : ∀ tree ∈ list.element :: list.elements, tree.kind.isOpenEnded = false := by
    intro tree mem
    rw [Bool.eq_false_iff]
    intro openEnded
    obtain ⟨isBlock, isList⟩ := block_of_erase clean (erase_of_restore clean decorated accepted)
      list.node isNode _ paired tree mem openEnded
    obtain ⟨layout, isLayout, lines⟩ :=
      onLines_block list.shape (isBlock ▸ (List.of_mem_zip paired).1) isList
    obtain rfl := SlotShape.list.inj (isLayout.symm.trans list.isList)
    cases lines.symm.trans list.isInline
  have below : ∀ tree ∈ list.element :: list.elements, ∀ node ∈ tree.preorder,
      Halting .standard node := by
    intro tree mem node isBelow
    refine halting_of_restore clean decorated accepted node ?_
    refine SlotTree.preorder_subset_of_mem_preorder restored.root isNode ?_
    exact SlotTree.preorder_subset_of_mem_preorder list.node
      (SlotTree.mem_preorder_of_mem_trees (List.of_mem_zip paired).2 mem) isBelow
  have ascending : list.script.Ascending :=
    (pairwise_comments_of_restore accepted).sublist suffix.sublist
  obtain ⟨⟨past, isPast⟩, ahead⟩ : list.opened.Halts lexeme :=
    Script.halts_upToLast list.tokens list.plan closed below ascending isLast lexeme isLexeme
  have visible : seen list.opened.past = true := by
    rw [isPast, seen]
    simp [shows]
  refine ⟨visible, ⟨visible, by rw [isPast]; rfl, by rw [isPast]; rfl⟩, fun row mem => ?_⟩
  have within : row.offset ≤ list.offset := by simpa using List.mem_takeWhile_imp mem
  have mem := (List.takeWhile_sublist _).mem mem
  have onward : Script.Onward list.script list.opened := Script.onward_upToLast _ _ _ _ _ _ _
  exact still row ((onward.table.trans suffix).subset mem) (ahead row mem) within

/-- **Trailing separators of texts.** In a restored text, the last element of a closed list has a
separator exactly if something starts a line between the element and the token that closes the
list. -/
theorem printed_marks_of_restore {marks : List Mark}
    (printed : Print.marks .standard restored.root restored.comments = .ok marks) :
    ∃ front between feeds back, list.Printed marks front between feeds back ∧
      ((∃ item ∈ between, item.1 = .token list.separator) ↔
        ∃ item ∈ between ++ [(.token list.closer.text, feeds)], 0 < item.2) := by
  obtain ⟨isSeen, ends⟩ := endsOnLine_of_restore clean decorated accepted list
  obtain ⟨front, between, feeds, back, whole, came, brought, merged⟩ := list.exists_stretch printed
  have printed := list.printed_of_stretch whole came brought merged isSeen
  exact ⟨front, between, feeds, back, printed, printed.needed, printed.present ends⟩

end ClosedList

omit clean decorated in
/-- In a restored tree, every list with separators that a token closes is a closed list. -/
theorem exists_closedList {node : Positional} (isNode : node ∈ restored.root.preorder)
    {front vacant back : List (AnchorShape × PositionalSlot)} {shape closing : AnchorShape}
    {element : Positional} {elements : List Positional} {separators : List Span} {closer : Lexeme}
    (split : (standardShape node.kind).anchors.zip node.slots =
      front ++ (shape, .list (element :: elements) separators) ::
        (vacant ++ (closing, .token (some closer)) :: back))
    {separator : String} (isSeparated : shape.slot.separator? = some separator)
    (isVacant : ∀ pair ∈ vacant, pair.2.isPresent = false) :
    ∃ list : ClosedList .standard restored.root restored.comments,
      list.node = node ∧ list.shape = shape ∧ list.separator = separator ∧
        list.element :: list.elements = element :: elements ∧ list.separators = separators ∧
        list.closer = closer := by
  have inShape : ∀ node ∈ restored.root.preorder, InShape .standard node := by
    intro node mem
    obtain ⟨present, pairs⟩ :=
      @allFit_of_restore (fun _ _ _ => True) _ _ accepted (fun _ _ _ _ _ _ _ => trivial) node mem
    exact pairs.imp fun shape slot fitted => fitted.kind
  obtain ⟨kind, span, slots⟩ := node
  have counted : (standardShape kind).anchors.length = slots.length := (inShape _ isNode).length_eq
  have split : (standardShape kind).anchors.zip slots = _ := split
  have isShapes := congrArg (List.map Prod.fst) split
  have isSlots := congrArg (List.map Prod.snd) split
  rw [List.map_fst_zip (Nat.le_of_eq counted), List.map_append, List.map_cons, List.map_append,
    List.map_cons] at isShapes
  rw [List.map_snd_zip (Nat.le_of_eq counted.symm), List.map_append, List.map_cons, List.map_append,
    List.map_cons] at isSlots
  cases isList : shape.slot with
  | token | child => simp [isList, SlotShape.separator?] at isSeparated
  | list layout =>
    have separates : layout.separator = some separator := by
      simpa [isList, SlotShape.separator?] using isSeparated
    have suffix : shape :: (vacant.map Prod.fst ++ closing :: back.map Prod.fst) <:+
        (standardShape kind).anchors := ⟨_, isShapes.symm⟩
    have isInline : layout.style = .inline := by
      have closes : closesLists kind (shape :: (vacant.map Prod.fst ++ closing :: back.map Prod.fst)) =
          true := by
        rw [List.suffix_iff_eq_drop.mp suffix]
        exact closesLists_drop (closesLists_standardShape kind) _
      simpa [closesLists, isList, separates] using (Bool.and_eq_true_iff.mp closes).1
    have isClose : closing.gap ≠ .line := by
      have closes := closesInline_suffix (closesInline_standardShape kind) suffix
      have all := (Bool.and_eq_true_iff.mp closes).1
      rw [isSeparated, Option.isNone_some, Bool.false_or, List.all_eq_true] at all
      simpa using all closing (by simp)
    obtain ⟨script, reached⟩ := hasWay_tree restored.root (.start restored.comments) inShape isNode
    obtain ⟨later, rest⟩ := @hasWay_rest .standard (.node kind span slots) script.tokens
      (shape :: (vacant.map Prod.fst ++ closing :: back.map Prod.fst))
      (.list (element :: elements) separators ::
        (vacant.map Prod.snd ++ .token (some closer) :: back.map Prod.snd)) front script
    rw [← isShapes, ← isSlots] at rest
    exact ⟨⟨.node kind span slots, script.tokens, shape, layout, isList, isInline, separator, separates,
      element, elements, separators, vacant, isVacant, closing, isClose, closer, _, _, later,
      (reached.tail (.slots kind span slots script)).trans rest⟩, rfl, rfl, rfl, rfl, rfl, rfl⟩

end Restored

end GoTrivia

import GoTrivia.Proofs.Grammar.Files
import GoTrivia.Proofs.Tree.Erasing

/-!
# How far parsed trees fit their shapes

Every node of a parsed tree has slots of the right kinds, and it fits its shape in full but
for two things the grammar lets through: brackets with nothing between them that want a
list there, and semicolons that were inserted at the end of a line and so have no text.
-/

set_option autoImplicit false

namespace GoTrivia

/-! ## The nodes of a spelled tree -/

theorem infix_of_append {α : Type} {front back whole : List α} (inside : front ++ back <:+: whole) :
    front <:+: whole ∧ back <:+: whole :=
  ⟨(List.prefix_append _ _).isInfix.trans inside, (List.suffix_append _ _).isInfix.trans inside⟩

theorem infix_of_cons {α : Type} {first : α} {rest whole : List α}
    (inside : first :: rest <:+: whole) : rest <:+: whole :=
  (List.suffix_cons _ _).isInfix.trans inside

/-- A node that was read from consecutive ones of the given tokens. -/
def SpelledIn (whole : List Token) (node : Positional) : Prop :=
  ∃ tokens, tokens <:+: whole ∧ Spells node tokens

mutual
theorem Spells.nodes : ∀ {tree : Positional} {tokens whole : List Token}, Spells tree tokens →
    tokens <:+: whole → ∀ node ∈ tree.preorder, SpelledIn whole node
  | _, _, _, .node content filled begins start stop below, inside => by
      rw [SlotTree.preorder]
      exact List.forall_mem_cons.mpr
        ⟨⟨_, inside, .node content filled begins start stop below⟩, content.nodes inside⟩

theorem SpellsSlots.nodes : ∀ {kind : NodeKind} {shapes : List AnchorShape}
    {slots : List PositionalSlot} {tokens whole : List Token},
    SpellsSlots kind shapes slots tokens → tokens <:+: whole →
    ∀ node ∈ SlotTree.preorderSlots slots, SpelledIn whole node
  | _, _, _, _, _, .nil, _ => by simp [SlotTree.preorderSlots]
  | _, shape :: _, _, _, _, .vacant empty rest, inside => by
      have none : ∀ slots : List PositionalSlot, SlotTree.preorderSlots (.vacant shape.slot :: slots) =
          SlotTree.preorderSlots slots := by
        intro slots
        cases shape.slot <;> rfl
      rw [empty, none]
      exact rest.nodes inside
  | _, _, _, _, _, .token _ _ _ rest, inside => rest.nodes (infix_of_cons inside)
  | _, _, _, _, _, .child _ content _ rest, inside => by
      obtain ⟨first, behind⟩ := infix_of_append inside
      exact List.forall_mem_append.mpr ⟨content.nodes first, rest.nodes behind⟩
  | _, _, _, _, _, .separated _ _ content _ rest, inside => by
      obtain ⟨first, behind⟩ := infix_of_append inside
      exact List.forall_mem_append.mpr ⟨content.nodes first, rest.nodes behind⟩
  | _, _, _, _, _, .terminated _ _ content rest, inside => by
      obtain ⟨first, behind⟩ := infix_of_append inside
      exact List.forall_mem_append.mpr ⟨content.nodes first, rest.nodes behind⟩

theorem SpellsSeparated.nodes : ∀ {trees : List Positional} {separators : List Span}
    {tokens whole : List Token}, SpellsSeparated trees separators tokens → tokens <:+: whole →
    ∀ node ∈ SlotTree.preorderElements trees, SpelledIn whole node
  | _, _, _, _, .nil, _ => by simp [SlotTree.preorderElements]
  | _, _, _, _, .last content _, inside => by
      simpa [SlotTree.preorderElements] using content.nodes inside
  | _, _, _, _, .cons content _ _ rest, inside => by
      obtain ⟨first, behind⟩ := infix_of_append inside
      exact List.forall_mem_append.mpr
        ⟨content.nodes first, rest.nodes (infix_of_cons behind)⟩

theorem SpellsTerminated.nodes : ∀ {trees : List Positional} {tokens whole : List Token},
    SpellsTerminated trees tokens → tokens <:+: whole →
    ∀ node ∈ SlotTree.preorderElements trees, SpelledIn whole node
  | _, _, _, .nil, _ => by simp [SlotTree.preorderElements]
  | _, _, _, .skip _ rest, inside => rest.nodes (infix_of_cons inside)
  | _, _, _, .cons content rest, inside => by
      obtain ⟨first, behind⟩ := infix_of_append inside
      exact List.forall_mem_append.mpr ⟨content.nodes first, rest.nodes behind⟩
end

/-- A node whose slots were read from consecutive ones of the given tokens, from at least one. -/
def ReadIn (whole : List Token) (node : Positional) : Prop :=
  ∃ tokens, tokens <:+: whole ∧ tokens ≠ [] ∧
    SpellsSlots node.kind (standardShape node.kind).anchors node.slots tokens ∧
    mayFill node.kind (node.slots.map Slot.isPresent) = true

theorem SpelledIn.readIn {whole : List Token} {node : Positional} (spelled : SpelledIn whole node) :
    ReadIn whole node := by
  obtain ⟨tokens, inside, spells⟩ := spelled
  cases spells with
  | node content filled begins =>
    exact ⟨tokens, inside, List.ne_nil_of_mem (List.mem_of_head? begins), content, filled⟩

/-- Every node of a parsed file was read from its tokens. -/
theorem Grammar.SpellsFile.readIn {length : Nat} {tree : Positional} {tokens : List Token}
    (spells : SpellsFile length tree tokens) : ∀ node ∈ tree.preorder, ReadIn tokens node := by
  cases spells with
  | @file slots front first last content filled begins isEnd =>
    have some := List.ne_nil_of_mem (List.mem_of_head? begins)
    have inside : front <:+: front ++ [last] := (List.prefix_append _ _).isInfix
    rw [SlotTree.preorder]
    exact List.forall_mem_cons.mpr ⟨⟨front, inside, some, content, filled⟩, fun node mem =>
      (content.nodes inside node mem).readIn⟩

/-- No node below a file is a file. -/
theorem Grammar.SpellsFile.eq_root {length : Nat} {tree node : Positional} {tokens : List Token}
    (spells : SpellsFile length tree tokens) (mem : node ∈ tree.preorder)
    (isFile : node.kind = .file) : node = tree := by
  cases spells with
  | @file slots front first last content filled begins isEnd =>
    rw [SlotTree.preorder] at mem
    rcases List.mem_cons.mp mem with same | inside
    · exact same
    · obtain ⟨tokens, -, spells⟩ := content.nodes (List.infix_rfl) node inside
      cases spells with
      | node _ _ _ _ _ below => exact absurd isFile below

/-- A node whose slots were read from tokens, of which there are some. -/
def SpelledNode (node : Positional) : Prop :=
  ∃ tokens, SpellsSlots node.kind (standardShape node.kind).anchors node.slots tokens ∧
    mayFill node.kind (node.slots.map Slot.isPresent) = true ∧
    (∀ token ∈ tokens, token.Regular) ∧ tokens ≠ []

/-- Every node of a parsed file was read from tokens. -/
theorem Grammar.SpellsFile.nodes {length : Nat} {tree : Positional} {tokens : List Token}
    (spells : SpellsFile length tree tokens) (lawful : Lawful tokens) :
    ∀ node ∈ tree.preorder, SpelledNode node := by
  intro node mem
  obtain ⟨tokens, inside, some, content, filled⟩ := spells.readIn node mem
  exact ⟨tokens, content, filled, fun token mem => lawful.regular token (inside.subset mem), some⟩

/-! ## Slots of the right kinds -/

theorem SpellsSlots.fits : ∀ {kind : NodeKind} {shapes : List AnchorShape}
    {slots : List PositionalSlot} {tokens : List Token}, SpellsSlots kind shapes slots tokens →
    shapes.length = slots.length ∧ ∀ pair ∈ shapes.zip slots, pair.2.fits pair.1.slot = true
  | _, _, _, _, .nil => ⟨rfl, by simp⟩
  | _, _, _, _, .vacant empty rest => by
      obtain ⟨lengths, fits⟩ := rest.fits
      refine ⟨by simp [lengths], List.forall_mem_cons.mpr ⟨?_, fits⟩⟩
      rw [empty]
      exact Slot.fits_vacant _
  | _, _, _, _, .token isToken _ _ rest => by
      obtain ⟨lengths, fits⟩ := rest.fits
      exact ⟨by simp [lengths], List.forall_mem_cons.mpr ⟨by rw [isToken]; rfl, fits⟩⟩
  | _, _, _, _, .child isChild _ _ rest => by
      obtain ⟨lengths, fits⟩ := rest.fits
      exact ⟨by simp [lengths], List.forall_mem_cons.mpr ⟨by rw [isChild]; rfl, fits⟩⟩
  | _, _, _, _, .separated isList _ _ _ rest => by
      obtain ⟨lengths, fits⟩ := rest.fits
      exact ⟨by simp [lengths], List.forall_mem_cons.mpr ⟨by rw [isList]; rfl, fits⟩⟩
  | _, _, _, _, .terminated isList _ _ rest => by
      obtain ⟨lengths, fits⟩ := rest.fits
      exact ⟨by simp [lengths], List.forall_mem_cons.mpr ⟨by rw [isList]; rfl, fits⟩⟩

theorem SpelledNode.kindFault? {node : Positional} (spelled : SpelledNode node) :
    SlotTree.kindFault? .standard node = none := by
  obtain ⟨tokens, content, -⟩ := spelled
  obtain ⟨lengths, fits⟩ := content.fits
  simp only [SlotTree.kindFault?, Registry.shape?_standard, Option.or_eq_none_iff,
    List.findSome?_eq_none_iff]
  refine ⟨by simp [SlotTree.countFault?, lengths], fun pair mem => ?_⟩
  rw [if_pos (fits pair mem)]

/-! ## Slots with the right content -/

/-- Whether a slot holds a token without text, one that stands for the end of a line. -/
def isInserted : PositionalSlot → Bool
  | .token (some lexeme) => lexeme.text == ""
  | _ => false

/-- A slot without its spans. -/
def eraseSlot : PositionalSlot → Slot Unit String Unit :=
  SlotTree.mapSlot (fun _ => ()) Lexeme.text (fun _ => ())

/-- The token of a slot has the prescribed text exactly if it was not inserted. -/
theorem contentFault?_token {text : TokenText} {token : Token} (regular : token.Regular)
    (fits : TokenFits text token.kind) :
    SlotTree.contentFault? (.token text) (eraseSlot (.token (some token.toLexeme))) = none ↔
      isInserted (.token (some token.toLexeme)) = false := by
  have shown : token.kind ≠ .semicolon → token.text ≠ "" := fun other =>
    (regular.visible other fits.ne_eof).1
  cases text with
  | free =>
    have filled := shown fits.1
    simp [SlotTree.contentFault?, eraseSlot, SlotTree.mapSlot, Slot.fits, isInserted, filled]
  | fixed text =>
    simp only [SlotTree.contentFault?, eraseSlot, SlotTree.mapSlot, Option.map_some, isInserted]
    by_cases isSemicolon : token.kind = .semicolon
    · have spelling : text = ";" := by
        have spelled : TokenKind.semicolon.spelling? = some text := isSemicolon ▸ fits
        exact (Option.some.inj spelled).symm
      rcases regular.semicolon isSemicolon with written | inserted
      · simp [spelling, written]
      · simp [spelling, inserted]
    · have written := regular.spelled isSemicolon text fits
      subst written
      simp [shown isSemicolon]

theorem contentFault?_vacant (shape : SlotShape) :
    SlotTree.contentFault? shape (eraseSlot (.vacant shape)) = none ↔
      isInserted (.vacant shape) = false := by
  cases shape with
  | token text => cases text <;> exact iff_of_true rfl rfl
  | child | list => exact iff_of_true rfl rfl

theorem contentFault?_child (child : Positional) :
    SlotTree.contentFault? .child (eraseSlot (.child (some child))) = none ↔
      isInserted (.child (some child)) = false := iff_of_true rfl rfl

theorem contentFault?_list (layout : ListLayout) (elements : List Positional)
    (separators : List Span) :
    SlotTree.contentFault? (.list layout) (eraseSlot (.list elements separators)) = none ↔
      isInserted (.list elements separators) = false := iff_of_true rfl rfl

/-- Slots have the prescribed content exactly if none of them holds an inserted token. -/
def ContentIff (shapes : List AnchorShape) (slots : List PositionalSlot) : Prop :=
  (∀ pair ∈ shapes.zip slots, SlotTree.contentFault? pair.1.slot (eraseSlot pair.2) = none) ↔
    slots.any isInserted = false

theorem ContentIff.nil : ContentIff [] [] := by simp [ContentIff]

theorem ContentIff.cons {shape : AnchorShape} {shapes : List AnchorShape} {slot : PositionalSlot}
    {slots : List PositionalSlot} (rest : ContentIff shapes slots) {own : SlotShape}
    (isOwn : shape.slot = own)
    (here : SlotTree.contentFault? own (eraseSlot slot) = none ↔ isInserted slot = false) :
    ContentIff (shape :: shapes) (slot :: slots) := by
  unfold ContentIff at rest ⊢
  rw [List.zip_cons_cons, List.forall_mem_cons, rest, List.any_cons, isOwn, here,
    Bool.or_eq_false_iff]

theorem SpellsSlots.content_iff : ∀ {kind : NodeKind} {shapes : List AnchorShape}
    {slots : List PositionalSlot} {tokens : List Token}, SpellsSlots kind shapes slots tokens →
    (∀ token ∈ tokens, token.Regular) → ContentIff shapes slots
  | _, _, _, _, .nil, _ => .nil
  | _, _, _, _, .vacant empty rest, regular =>
      empty ▸ (rest.content_iff regular).cons rfl (contentFault?_vacant _)
  | _, _, _, _, .token isToken fits _ rest, regular =>
      have each := List.forall_mem_cons.mp regular
      (rest.content_iff each.2).cons isToken (contentFault?_token each.1 fits)
  | _, _, _, _, .child isChild _ _ rest, regular =>
      (rest.content_iff (List.forall_mem_append.mp regular).2).cons isChild (contentFault?_child _)
  | _, _, _, _, .separated isList _ _ _ rest, regular =>
      (rest.content_iff (List.forall_mem_append.mp regular).2).cons isList
        (contentFault?_list _ _ _)
  | _, _, _, _, .terminated isList _ _ rest, regular =>
      (rest.content_iff (List.forall_mem_append.mp regular).2).cons isList
        (contentFault?_list _ _ _)

/-! ## Slots filled as prescribed -/

/-- A slot of a well filled node is filled as its own shape prescribes. -/
theorem presenceFault?_of_wellFilled {kind : NodeKind} {present : List Bool} {i : Nat}
    {shape : AnchorShape} {filled : Bool} (fine : wellFilled kind present = true)
    (shaped : (standardShape kind).anchors[i]? = some shape) (found : present[i]? = some filled) :
    SlotTree.presenceFault? shape.presence filled (presentAt kind present) = none := by
  have mem : (shape, filled) ∈ (standardShape kind).anchors.zip present := by
    refine List.mem_of_getElem? (i := i) ?_
    rw [List.getElem?_zip_eq_some]
    exact ⟨shaped, found⟩
  simpa using List.all_eq_true.mp fine _ mem

theorem getElem?_of_presentAt {kind : NodeKind} {present : List Bool} {anchor : Anchor} (i : Nat)
    (index : (standardShape kind).indexOf? anchor = some i) (inside : i < present.length)
    (absent : presentAt kind present anchor = false) : present[i]? = some false := by
  simp only [presentAt, index, List.getElem?_eq_getElem inside, Option.any_some, id_eq] at absent
  rw [List.getElem?_eq_getElem inside, absent]

/-- A node with empty brackets is not filled as its shape prescribes. -/
theorem wellFilled_eq_not_hasEmptyBrackets {kind : NodeKind} {present : List Bool}
    (lengths : (standardShape kind).anchors.length = present.length)
    (may : mayFill kind present = true) :
    wellFilled kind present = !hasEmptyBrackets kind present := by
  cases empty : hasEmptyBrackets kind present with
  | false => simpa [mayFill, empty] using may
  | true =>
    by_contra fine
    simp only [Bool.not_true, Bool.not_eq_false] at fine
    simp only [hasEmptyBrackets, bracketedLists, List.any_cons, List.any_nil, Bool.or_false,
      Bool.or_eq_true, Bool.and_eq_true, beq_iff_eq, Bool.not_eq_true'] at empty
    rcases empty with ⟨⟨rfl, -⟩, absent⟩ | ⟨⟨rfl, opened⟩, absent⟩ | ⟨⟨rfl, opened⟩, absent⟩
    · have found := getElem?_of_presentAt 2 rfl (lengths ▸ (by decide)) absent
      cases presenceFault?_of_wellFilled fine rfl found
    · have found := getElem?_of_presentAt 2 rfl (lengths ▸ (by decide)) absent
      have clash := presenceFault?_of_wellFilled fine rfl found
      simp [SlotTree.presenceFault?, StandardShape.list, AnchorShape.together, opened] at clash
    · have found := getElem?_of_presentAt 6 rfl (lengths ▸ (by decide)) absent
      have clash := presenceFault?_of_wellFilled fine rfl found
      simp [SlotTree.presenceFault?, StandardShape.list, AnchorShape.together, opened] at clash

/-- **Parsed nodes and their shapes.** A node of a parsed tree fits its shape in full exactly
if it has no empty brackets that want a list and no inserted semicolon. -/
theorem SpelledNode.fault?_iff {node : Positional} (spelled : SpelledNode node) :
    SlotTree.fault? .standard node.erase = none ↔
      hasEmptyBrackets node.kind (node.slots.map Slot.isPresent) = false ∧
        node.slots.any isInserted = false := by
  obtain ⟨tokens, content, may, regular, -⟩ := spelled
  obtain ⟨kind, span, slots⟩ := node
  have content : SpellsSlots kind (standardShape kind).anchors slots tokens := content
  have lengths := content.fits.1
  have others : SlotTree.isPresentAt (standardShape kind)
      (.node kind () (slots.map eraseSlot) : Bare) = presentAt kind (slots.map Slot.isPresent) := by
    funext anchor
    unfold SlotTree.isPresentAt presentAt
    cases (standardShape kind).indexOf? anchor with
    | none => rfl
    | some index => simp [SlotTree.slots, eraseSlot, Option.any_map]
  have erased : Positional.erase (.node kind span slots) = .node kind () (slots.map eraseSlot) := by
    rw [Positional.erase, SlotTree.map, SlotTree.mapSlots_eq_map]
    rfl
  have filled : wellFilled kind (slots.map Slot.isPresent) =
      !hasEmptyBrackets kind (slots.map Slot.isPresent) :=
    wellFilled_eq_not_hasEmptyBrackets (by simpa using lengths) may
  have presence : (∀ pair ∈ (standardShape kind).anchors.zip slots,
      SlotTree.presenceFault? pair.1.presence pair.2.isPresent
        (presentAt kind (slots.map Slot.isPresent)) = none) ↔
      hasEmptyBrackets kind (slots.map Slot.isPresent) = false := by
    rw [← Bool.not_eq_true', ← filled, wellFilled, List.all_eq_true, List.zip_map_right,
      List.forall_mem_map]
    simp only [Option.isNone_iff_eq_none]
    rfl
  rw [erased]
  simp only [SlotTree.fault?, Registry.shape?_standard, Option.or_eq_none_iff,
    List.findSome?_eq_none_iff, SlotTree.kind, SlotTree.slots, SlotTree.countFault?, lengths,
    List.length_map, if_true, true_and, List.zip_map_right, List.forall_mem_map, others,
    Option.map_eq_none_iff]
  have contents : _ ↔ _ := content.content_iff regular
  rw [← presence, ← contents]
  constructor
  · intro fine
    refine ⟨fun pair mem => ?_, fun pair mem => (fine pair mem).1⟩
    simpa [eraseSlot] using (fine pair mem).2
  · rintro ⟨filled, fine⟩ pair mem
    exact ⟨fine pair mem, by simpa [eraseSlot] using filled pair mem⟩

end GoTrivia

import GoTrivia.Print.Basic
import GoTrivia.Proofs.Grammar.Openings

/-!
# Lists on lines of their own

Declarations, members and statements stand on lines of their own.  Semicolons end them and
leave no trace in the tree.  Behind such a list comes the token that closes it, or it is the
last thing of its node, which happens in files and in clauses (`ReadIn.onLines`).
-/

set_option autoImplicit false

namespace GoTrivia

/-- Whether the elements of the list of an anchor go on lines of their own. -/
def onLines (owner : Positional) (anchor : Anchor) : Bool :=
  ((standardShape owner.kind).find? anchor).any fun shape =>
    match shape.slot with
    | .list layout => Print.isLines owner layout.style
    | _ => false

/-- What the printer asks of a list, it asks of the shape. -/
theorem exists_shape_of_onLines {owner : Positional} {anchor : Anchor}
    (lined : onLines owner anchor = true) :
    ∃ index shape layout, owner.indexOf? anchor = some index ∧
      (standardShape owner.kind).anchors[index]? = some shape ∧ shape.slot = .list layout ∧
      Print.isLines owner layout.style = true := by
  obtain ⟨shape, found, isLines⟩ := (Option.any_eq_true _ _).mp lined
  obtain ⟨isAnchor, index, bound, rfl, first⟩ := List.find?_eq_some_iff_getElem.mp found
  have isIndex : owner.indexOf? anchor = some index :=
    List.findIdx?_eq_some_iff_getElem.mpr ⟨bound, isAnchor, fun before less => by
      simpa using first before less⟩
  cases slot : (standardShape owner.kind).anchors[index].slot with
  | list layout =>
    rw [slot] at isLines
    exact ⟨index, _, layout, isIndex, List.getElem?_eq_getElem bound, slot, isLines⟩
  | token | child => simp [slot] at isLines

/-! ## Shapes with such lists -/

/-- Whether what follows a list on lines is the token that closes it, or nothing. -/
def closesList (kind : NodeKind) (style : ListStyle) : List AnchorShape → Bool
  | [] => kind == .file || kind == .caseClause
  | [closing] =>
    (match closing.slot with
      | .token _ => closing.isSolid
      | _ => false) &&
    (closing.presence == .required ||
      style == .grouped && closing.presence == .together .lparen) &&
    bracketedLists.all fun entry => entry.1 != kind
  | _ => false

/-- Whether the lists on lines of a shape have no separators and are closed. -/
def closesLists (kind : NodeKind) : List AnchorShape → Bool
  | [] => true
  | shape :: shapes =>
    (match shape.slot with
      | .list layout => layout.style == .inline ||
        layout.separator.isNone && closesList kind layout.style shapes
      | _ => true) && closesLists kind shapes

theorem closesLists_standardShape (kind : NodeKind) :
    closesLists kind (standardShape kind).anchors = true := by
  have all : (NodeKind.all.all fun kind => closesLists kind (standardShape kind).anchors) = true := by
    decide
  exact List.all_eq_true.mp all kind (NodeKind.mem_all kind)

theorem closesLists_drop {kind : NodeKind} {shapes : List AnchorShape}
    (closes : closesLists kind shapes = true) (count : Nat) :
    closesLists kind (shapes.drop count) = true := by
  induction count generalizing shapes with
  | zero => exact closes
  | succ count ih =>
    cases shapes with
    | nil => rfl
    | cons shape shapes => exact ih (Bool.and_eq_true_iff.mp closes).2

/-! ## Nodes with such lists -/

theorem SpellsSlots.behind {kind : NodeKind} {shapes : List AnchorShape}
    {slots : List PositionalSlot} {tokens : List Token} (content : SpellsSlots kind shapes slots tokens)
    (count : Nat) :
    ∃ rest, rest <:+: tokens ∧ SpellsSlots kind (shapes.drop count) (slots.drop count) rest := by
  induction count generalizing shapes slots tokens with
  | zero => exact ⟨tokens, List.infix_rfl, content⟩
  | succ count ih =>
    cases content with
    | nil => exact ⟨[], List.infix_rfl, .nil⟩
    | vacant _ rest => exact ih rest
    | token _ _ _ rest =>
      obtain ⟨later, inside, content⟩ := ih rest
      exact ⟨later, inside.trans (List.suffix_cons _ _).isInfix, content⟩
    | child _ _ _ rest | separated _ _ _ _ rest | terminated _ _ _ rest =>
      obtain ⟨later, inside, content⟩ := ih rest
      exact ⟨later, inside.trans (List.suffix_append _ _).isInfix, content⟩

theorem SpellsTerminated.elements {nodes : List Positional} {tokens whole : List Token}
    (content : SpellsTerminated nodes tokens) (inside : tokens <:+: whole) :
    ∀ node ∈ nodes, SpelledIn whole node := by
  cases content with
  | nil => simp
  | skip _ rest => exact rest.elements (infix_of_cons inside)
  | cons content rest =>
    obtain ⟨first, behind⟩ := infix_of_append inside
    exact List.forall_mem_cons.mpr ⟨⟨_, first, content⟩, rest.elements behind⟩

theorem presentAt_of_token? {owner : Positional} {anchor : Anchor}
    (found : (owner.token? anchor).isSome = true) :
    presentAt owner.kind (owner.slots.map Slot.isPresent) anchor = true := by
  obtain ⟨token, found⟩ := Option.isSome_iff_exists.mp found
  have found : owner.slot? anchor = some (.token (some token)) := by
    cases slot : owner.slot? anchor with
    | none => simp [SlotTree.token?, slot] at found
    | some content => cases content <;> simp_all [SlotTree.token?]
  obtain ⟨index, isIndex, here⟩ := Option.bind_eq_some_iff.mp found
  have isIndex : (standardShape owner.kind).indexOf? anchor = some index := isIndex
  simp [presentAt, isIndex, here]

/-- The elements of a list without separators, and what follows. -/
theorem SpellsSlots.unseparated {kind : NodeKind} {shape : AnchorShape} {shapes : List AnchorShape}
    {layout : ListLayout} {elements : List Positional} {separators : List Span}
    {slots : List PositionalSlot} {tokens whole : List Token}
    (content : SpellsSlots kind (shape :: shapes) (.list elements separators :: slots) tokens)
    (isList : shape.slot = .list layout) (separator : layout.separator = none)
    (inside : tokens <:+: whole) :
    separators = [] ∧ (∀ element ∈ elements, SpelledIn whole element) ∧
      ∃ rest, rest <:+: whole ∧ SpellsSlots kind shapes slots rest := by
  cases content with
  | vacant empty rest =>
    rw [isList] at empty
    cases empty
    exact ⟨rfl, by simp, _, inside, rest⟩
  | separated isList' separator' =>
    rw [isList] at isList'
    cases isList'
    rw [separator] at separator'
    cases separator'
  | terminated _ _ content rest =>
    obtain ⟨first, behind⟩ := infix_of_append inside
    exact ⟨rfl, content.elements first, _, behind, rest⟩

theorem only_of_closesList {kind : NodeKind} {style : ListStyle} {shape : AnchorShape}
    {shapes : List AnchorShape} (closes : closesList kind style (shape :: shapes) = true) :
    shapes = [] ∧ (match shape.slot with
      | .token _ => shape.isSolid
      | _ => false) = true := by
  cases shapes with
  | nil =>
    simp only [closesList, Bool.and_eq_true] at closes
    exact ⟨rfl, closes.1.1⟩
  | cons => simp [closesList] at closes

/-- What follows a list on lines: the token that closes it, or nothing. -/
theorem SpellsSlots.closing {kind : NodeKind} {style : ListStyle} {shapes : List AnchorShape}
    {slots : List PositionalSlot} {tokens : List Token} (content : SpellsSlots kind shapes slots tokens)
    (closes : closesList kind style shapes = true) (filled : slots.map Slot.isPresent ≠ [false]) :
    slots = [] ∧ (kind = .file ∨ kind = .caseClause) ∨
      ∃ token ∈ tokens, token.kind ≠ .semicolon ∧ slots = [.token (some token.toLexeme)] := by
  cases content with
  | nil => exact .inl ⟨rfl, by simpa [closesList] using closes⟩
  | vacant empty rest =>
    obtain ⟨rfl, -⟩ := only_of_closesList closes
    cases rest
    refine absurd ?_ filled
    rw [empty]
    cases AnchorShape.slot _ <;> rfl
  | @token _ shape _ text token _ _ isToken fits _ rest =>
    obtain ⟨rfl, solid⟩ := only_of_closesList closes
    cases rest
    refine .inr ⟨token, by simp, fun isSemicolon => ?_, rfl⟩
    rw [isSemicolon] at fits
    simp [AnchorShape.isSolid, isToken, fits.eq_fixed] at solid
  | child isChild =>
    obtain ⟨rfl, solid⟩ := only_of_closesList closes
    simp [isChild] at solid
  | separated isList | terminated isList =>
    obtain ⟨rfl, solid⟩ := only_of_closesList closes
    simp [isList] at solid

/-- The token that closes a list on lines is there. -/
theorem filled_of_closesList {owner : Positional} {layout : ListLayout} {index : Nat}
    (filled : mayFill owner.kind (owner.slots.map Slot.isPresent) = true)
    (isLines : Print.isLines owner layout.style = true)
    (lengths : (standardShape owner.kind).anchors.length = owner.slots.length)
    (closes : closesList owner.kind layout.style ((standardShape owner.kind).anchors.drop index) = true) :
    (owner.slots.drop index).map Slot.isPresent ≠ [false] := by
  intro absent
  have here : (owner.slots.map Slot.isPresent)[index]? = some false := by
    simpa using congrArg List.head? absent
  have bound : index < (standardShape owner.kind).anchors.length := by
    have := (List.getElem?_eq_some_iff.mp here).1
    simp at this
    omega
  rw [List.drop_eq_getElem_cons bound] at closes
  obtain ⟨only, -⟩ := only_of_closesList closes
  rw [only] at closes
  simp only [closesList, Bool.and_eq_true, Bool.or_eq_true, beq_iff_eq] at closes
  obtain ⟨⟨-, presence⟩, plain⟩ := closes
  have fault := presenceFault?_of_wellFilled (wellFilled_of_mayFill plain filled)
    (List.getElem?_eq_getElem bound) here
  rcases presence with required | ⟨style, together⟩
  · simp [required, SlotTree.presenceFault?] at fault
  · have opened : (owner.token? .lparen).isSome = true := by simpa [style, Print.isLines] using isLines
    simp [together, SlotTree.presenceFault?, presentAt_of_token? opened] at fault

/-- **Lists on lines.** The elements of a list on lines were read from tokens, and behind the
list comes a token that is no semicolon, or nothing in a file or a clause. -/
theorem ReadIn.onLines {whole : List Token} {owner : Positional} (read : ReadIn whole owner)
    {index : Nat} {shape : AnchorShape} {layout : ListLayout} {elements : List Positional}
    {separators : List Span} (shaped : (standardShape owner.kind).anchors[index]? = some shape)
    (isList : shape.slot = .list layout) (isLines : Print.isLines owner layout.style = true)
    (found : owner.slots[index]? = some (.list elements separators)) :
    separators = [] ∧ (∀ element ∈ elements, SpelledIn whole element) ∧
      (owner.slots.drop (index + 1) = [] ∧ (owner.kind = .file ∨ owner.kind = .caseClause) ∨
        ∃ token ∈ whole, token.kind ≠ .semicolon ∧
          owner.slots.drop (index + 1) = [.token (some token.toLexeme)]) := by
  obtain ⟨tokens, segment, -, content, filled⟩ := read
  have lengths := content.fits.1
  have closes := closesLists_drop (closesLists_standardShape owner.kind) index
  obtain ⟨rest, inside, content⟩ := content.behind index
  obtain ⟨bound, shaped⟩ := List.getElem?_eq_some_iff.mp shaped
  obtain ⟨bound', here⟩ := List.getElem?_eq_some_iff.mp found
  rw [List.drop_eq_getElem_cons bound, shaped] at closes content
  rw [List.drop_eq_getElem_cons bound', here] at content
  have style : layout.style ≠ .inline := fun inline => by simp [inline, Print.isLines] at isLines
  simp only [closesLists, isList, Bool.and_eq_true, Bool.or_eq_true, beq_iff_eq, style, false_or,
    Option.isNone_iff_eq_none] at closes
  obtain ⟨⟨separator, closes⟩, -⟩ := closes
  obtain ⟨none, listed, later, within, behind⟩ :=
    content.unseparated isList separator (inside.trans segment)
  refine ⟨none, listed, ?_⟩
  rcases behind.closing closes (filled_of_closesList filled isLines lengths closes) with
    last | ⟨token, mem, solid, same⟩
  · exact .inl last
  · exact .inr ⟨token, within.subset mem, solid, same⟩

end GoTrivia

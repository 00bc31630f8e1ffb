import GoTrivia.Proofs.Printing.Walk
import GoTrivia.Proofs.Restoring.Structure
import GoTrivia.Proofs.Tree.Slotting

/-!
# What the printer may rely on

A restored tree is printed by the shapes that it was checked against.  For each slot this tells
which kind it is of, which text its token has, and whether it is filled, given which of the other
slots are (`Fitted`).  The texts that shapes leave open may be restricted further, since what holds
of the tokens of the decorated tree holds of those that are printed.
-/

set_option autoImplicit false

namespace GoTrivia

open SlotTree

/-- What the tokens may say whose texts a shape leaves open. -/
abbrev FreeTexts := NodeKind → Anchor → String → Prop

variable {ν σ : Type}

/-- The tokens of a node whose texts are free say what they may. -/
def HasTexts (free : FreeTexts) (node : SlotTree ν String σ) : Prop :=
  ∀ shape ∈ (standardShape node.kind).anchors, shape.slot = .token .free →
    ∀ text ∈ node.token? shape.anchor, free node.kind shape.anchor text

/-- A slot that fits its anchor, next to the slots of other anchors that are filled or not. -/
structure Fitted (free : Anchor → String → Prop) (filled : Anchor → Bool) (shape : AnchorShape)
    (slot : PositionalSlot) : Prop where
  kind : slot.fits shape.slot = true
  fixed : ∀ expected lexeme, shape.slot = .token (.fixed expected) → slot = .token (some lexeme) →
    lexeme.text = expected
  free : ∀ lexeme, shape.slot = .token .free → slot = .token (some lexeme) →
    free shape.anchor lexeme.text
  own : slot.isPresent = filled shape.anchor
  required : shape.presence = .required → filled shape.anchor = true
  together : ∀ other, shape.presence = .together other → filled shape.anchor = filled other

/-- The prescribed text of an anchor that holds a token. -/
def AnchorShape.fixedText? (shape : AnchorShape) : Option String :=
  match shape.slot with
  | .token (.fixed text) => some text
  | _ => none

namespace Fitted

variable {free : Anchor → String → Prop} {filled : Anchor → Bool} {shape : AnchorShape}
  {lexeme : Lexeme}

theorem text_of_fixedText? (fitted : Fitted free filled shape (.token (some lexeme)))
    {text : String} (isFixed : shape.fixedText? = some text) : lexeme.text = text := by
  unfold AnchorShape.fixedText? at isFixed
  split at isFixed <;> cases isFixed
  next isToken => exact fitted.fixed _ _ isToken rfl

/-- Only anchors that hold a token have a text. -/
theorem fixedText?_eq_none {slot : PositionalSlot} (fitted : Fitted free filled shape slot)
    (other : ∀ token, slot ≠ .token token) : shape.fixedText? = none := by
  have isKind := fitted.kind
  unfold AnchorShape.fixedText?
  split
  · next isToken =>
    rw [isToken] at isKind
    cases slot with
    | token token => exact (other token rfl).elim
    | child | list => simp [Slot.fits] at isKind
  · rfl

/-- An anchor with a text holds a token, if it is filled. -/
theorem exists_lexeme {slot : PositionalSlot} (fitted : Fitted free filled shape slot)
    {text : String} (isFixed : shape.fixedText? = some text)
    (some : filled shape.anchor = true) :
    ∃ lexeme, slot = .token (.some lexeme) := by
  have present : slot.isPresent = true := fitted.own.trans some
  cases slot with
  | token token =>
    obtain ⟨lexeme, rfl⟩ := Option.isSome_iff_exists.mp present
    exact ⟨lexeme, rfl⟩
  | child | list => cases isFixed.symm.trans (fitted.fixedText?_eq_none nofun)

theorem exists_layout {elements : List Positional} {separators : List Span}
    (fitted : Fitted free filled shape (.list elements separators)) :
    ∃ layout, shape.slot = .list layout := by
  have isKind := fitted.kind
  cases isSlot : shape.slot with
  | list layout => exact ⟨layout, rfl⟩
  | token | child => simp [isSlot, Slot.fits] at isKind

end Fitted

/-- The separators of standard lists are commas. -/
theorem separator_standard (kind : NodeKind) : ∀ shape ∈ (standardShape kind).anchors,
    ∀ text ∈ shape.slot.separator?, text = "," := by
  cases kind <;> decide

/-- The slots of a node fit its shape. -/
def FitsShape (free : FreeTexts) (node : Positional) : Prop :=
  ∃ filled : Anchor → Bool, List.Forall₂ (Fitted (free node.kind) filled)
    (standardShape node.kind).anchors node.slots

/-- The slots of these nodes fit their shapes. -/
def AllFit (free : FreeTexts) (nodes : List Positional) : Prop :=
  ∀ node ∈ nodes, FitsShape free node

/-! ## Nodes that were checked -/

/-- The slot of an anchor stands where the anchor does. -/
theorem exists_indexOf?_of_mem_zip {node : SlotTree ν String σ} {shape : AnchorShape}
    {slot : Slot ν String σ}
    (mem : (shape, slot) ∈ (standardShape node.kind).anchors.zip node.slots) :
    ∃ index, (standardShape node.kind).indexOf? shape.anchor = some index ∧
      node.slots[index]? = some slot := by
  obtain ⟨index, bound, here⟩ := List.getElem_of_mem mem
  rw [List.getElem_zip, Prod.mk.injEq] at here
  obtain ⟨isShape, isSlot⟩ := here
  rw [List.length_zip, Nat.lt_min] at bound
  have unique := List.nodup_iff_pairwise_ne.mp (nodup_anchors node.kind)
  refine ⟨index, ?_, by rw [List.getElem?_eq_getElem bound.2, isSlot]⟩
  refine List.findIdx?_eq_some_iff_getElem.mpr ⟨bound.1, by simp [isShape], fun before less => ?_⟩
  have apart := List.pairwise_iff_getElem.mp unique before index
    (by rw [List.length_map]; omega) (by rw [List.length_map]; exact bound.1) less
  simpa [isShape] using apart

/-- Whether an anchor is filled is told by its own slot. -/
theorem isPresentAt_of_mem_zip {node : SlotTree ν String σ} {shape : AnchorShape}
    {slot : Slot ν String σ}
    (mem : (shape, slot) ∈ (standardShape node.kind).anchors.zip node.slots) :
    node.isPresentAt (standardShape node.kind) shape.anchor = slot.isPresent := by
  obtain ⟨index, isIndex, isSlot⟩ := exists_indexOf?_of_mem_zip mem
  simp [isPresentAt, isIndex, isSlot]

theorem token?_of_mem_zip {node : SlotTree ν String σ} {shape : AnchorShape}
    {token : Option String}
    (mem : (shape, .token token) ∈ (standardShape node.kind).anchors.zip node.slots) :
    node.token? shape.anchor = token := by
  obtain ⟨index, isIndex, isSlot⟩ := exists_indexOf?_of_mem_zip mem
  simp [SlotTree.token?, slot?, indexOf?, isIndex, isSlot]

/-- What else a tree carries does not matter for its tokens. -/
theorem token?_map {ν' σ' : Type} (f : ν → ν') (g : σ → σ') (node : SlotTree ν String σ)
    (anchor : Anchor) : (node.map f id g).token? anchor = node.token? anchor := by
  obtain ⟨kind, info, slots⟩ := node
  rw [map, mapSlots_eq_map]
  simp only [SlotTree.token?, slot?, indexOf?, SlotTree.kind, SlotTree.slots, List.getElem?_map]
  cases (standardShape kind).indexOf? anchor with
  | none => rfl
  | some index =>
    simp only [Option.bind_some]
    cases slots[index]? with
    | none => rfl
    | some slot => cases slot <;> simp [mapSlot]

/-- A node without a fault has slots that fit. -/
theorem fitsShape_of_fits {free : FreeTexts} {node : Positional} (fits : node.erase.Fits .standard)
    (texts : HasTexts free node.erase) : FitsShape free node := by
  obtain ⟨kind, span, slots⟩ := node
  let bare : PositionalSlot → Slot Unit String Unit := mapSlot (fun _ => ()) Lexeme.text fun _ => ()
  have erased : Positional.erase (.node kind span slots) = .node kind () (slots.map bare) := by
    rw [Positional.erase, map, mapSlots_eq_map]
  rw [erased] at fits texts
  obtain ⟨_, known, counted, each⟩ := fits
  obtain rfl := Option.some.inj known
  have counted : (standardShape kind).anchors.length = slots.length :=
    counted.trans (List.length_map _)
  have paired {shape : AnchorShape} {slot : PositionalSlot}
      (mem : (shape, slot) ∈ (standardShape kind).anchors.zip slots) :
      (shape, bare slot) ∈ (standardShape kind).anchors.zip (slots.map bare) := by
    rw [List.zip_map_right]
    exact List.mem_map_of_mem (f := Prod.map id bare) mem
  refine ⟨(.node kind () (slots.map bare) : Bare).isPresentAt (standardShape kind),
    List.forall₂_iff_zip.mpr ⟨counted, fun {shape slot} mem => ?_⟩⟩
  obtain ⟨⟨isKind, text⟩, ⟨required, together⟩⟩ := each _ (paired mem)
  have present : (bare slot).isPresent = slot.isPresent := isPresent_mapSlot _ _ _ slot
  have own : (.node kind () (slots.map bare) : Bare).isPresentAt (standardShape kind) shape.anchor =
      (bare slot).isPresent :=
    @isPresentAt_of_mem_zip Unit Unit (.node kind () (slots.map bare)) _ _ (paired mem)
  exact {
    kind := (fits_mapSlot _ _ _ shape.slot slot).symm.trans isKind
    fixed := fun expected lexeme fixed isToken =>
      text expected lexeme.text fixed (by rw [isToken]; rfl)
    free := fun lexeme isFree isToken => by
      subst isToken
      have isToken := @token?_of_mem_zip Unit Unit (.node kind () (slots.map bare)) _ _ (paired mem)
      exact texts shape (List.of_mem_zip mem).1 isFree lexeme.text isToken
    own := (own.trans present).symm
    required := fun isRequired => own.trans (required isRequired)
    together := fun other isTogether => own.trans (by
      rw [Bool.eq_iff_iff, isPresentAt_iff]
      exact together other isTogether) }

/-- The nodes of a restored tree fit their shapes. -/
theorem allFit_of_restore {free : FreeTexts} {tree : DecoratedTree} {restored : Restored}
    (accepted : (tree.restore .standard).result = .ok restored)
    (texts : ∀ node ∈ tree.root.preorder, HasTexts free node) :
    AllFit free restored.root.preorder := by
  obtain ⟨faultless, rfl⟩ := restore_eq_ok_iff.mp accepted
  intro node mem
  have same := congrArg preorder (copies_place faultless).erase
  rw [Positional.erase, Decorated.erase, preorder_map, preorder_map] at same
  have erased := same ▸ List.mem_map_of_mem mem
  obtain ⟨original, isNode, alike⟩ := List.mem_map.mp erased
  refine fitsShape_of_fits (fault?_eq_none_iff.mp ?_) ?_
  · show fault? .standard (node.map _ _ _) = none
    rw [← alike, fault?_map]
    exact faultless original isNode
  · have fine := texts original isNode
    show HasTexts free (node.map _ _ _)
    rw [← alike]
    intro shape mem isFree text isToken
    rw [token?_map] at isToken
    obtain ⟨kind, info, slots⟩ := original
    exact fine shape mem isFree text isToken

end GoTrivia

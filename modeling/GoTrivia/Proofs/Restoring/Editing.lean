import GoTrivia.Proofs.Restoring.Checking
import GoTrivia.Proofs.Tree.Slotting

/-!
# Editing keeps the shapes

A decorated tree comes from decorating or from a constructor, and is then edited: tokens and
children are set, lists and decorations are changed, at any node, and nodes move from one tree to
another.  Whatever is done, each node keeps one slot of the right kind for each anchor.

**Single edits.** Setting a token or a child fails exactly if the shape of the node's kind has no
such anchor.  Then the tree stays as it is, and otherwise just that slot changes.

**Restoring.** Since the slots are never wrong, what restoring can find wrong is their content: a
text that is not the prescribed one, or a slot that is filled or empty when it should not be.
-/

set_option autoImplicit false

namespace GoTrivia

/-! ## Edits -/

namespace Decorated

/-- The nodes a change puts into a list. -/
def ListEdit.nodes : ListEdit → List Decorated
  | .insert _ node => [node]
  | .remove _ | .swap _ _ | .reverse | .clear => []

/-- A change of one node. -/
inductive NodeEdit
  | setToken (anchor : Anchor) (text : Option String)
  | setChild (anchor : Anchor) (child : Option Decorated)
  | editList (anchor : Anchor) (edit : ListEdit)
  | modifyDecoration (anchor : Anchor) (change : Decoration → Decoration)

namespace NodeEdit

/-- The nodes a change puts into a tree. -/
def nodes : NodeEdit → List Decorated
  | .setChild _ child => child.toList
  | .editList _ edit => edit.nodes
  | .setToken _ _ | .modifyDecoration _ _ => []

/-- The node after a change, unless the change is refused. -/
def apply (node : Decorated) : NodeEdit → Option Decorated
  | .setToken anchor text => (node.setToken anchor text).toOption.map Prod.snd
  | .setChild anchor child => (node.setChild anchor child).toOption.map Prod.snd
  | .editList anchor edit => (node.editList anchor edit).toOption
  | .modifyDecoration anchor change => some (node.modifyDecoration anchor change)

end NodeEdit

/-- A change of the node at a path. -/
structure Edit where
  path : Path
  change : NodeEdit

/-- The tree after an edit.  An edit of a node that is not there, or one that is refused, leaves the
tree as it is. -/
def Edit.apply (edit : Edit) (tree : Decorated) : Decorated :=
  match tree.follow edit.path with
  | .error _ => tree
  | .ok node =>
    match edit.change.apply node with
    | none => tree
    | some changed => tree.put edit.path changed

/-- The tree after one edit after the other. -/
def edited (tree : Decorated) (edits : List Edit) : Decorated :=
  edits.foldl (fun tree edit => edit.apply tree) tree

/-- How trees are obtained: by decorating and from constructors, by edits of trees that are already
there, and by taking out subtrees. -/
inductive Obtained : Decorated → Prop
  | decorated {source : SourceTree} {resolver : LineResolver} {tree : DecoratedTree}
      (done : (source.decorate .standard resolver).result = .ok tree) : Obtained tree.root
  | vacant (kind : NodeKind) : Obtained (vacant kind)
  | ident (name : String) : Obtained (ident name)
  | basicLit (value : String) : Obtained (basicLit value)
  | exprStmt {x : Decorated} (operand : Obtained x) : Obtained (exprStmt x)
  | call {callee : Decorated} {args : List Decorated} (function : Obtained callee)
      (each : ∀ arg ∈ args, Obtained arg) : Obtained (call callee args)
  | assign {lhs rhs : List Decorated} (tok : String) (left : ∀ target ∈ lhs, Obtained target)
      (right : ∀ value ∈ rhs, Obtained value) : Obtained (assign lhs tok rhs)
  | returnStmt {results : List Decorated} (each : ∀ result ∈ results, Obtained result) :
      Obtained (returnStmt results)
  | edited {tree : Decorated} (edit : Edit) (before : Obtained tree)
      (inserted : ∀ node ∈ edit.change.nodes, Obtained node) : Obtained (edit.apply tree)
  | taken {tree node : Decorated} (path : Path) (whole : Obtained tree)
      (found : tree.follow path = .ok node) : Obtained node

end Decorated

open Decorated SlotTree

/-! ## Trees that decorating gives -/

namespace SlotTree

variable {ν τ σ ν' τ' σ' : Type}

/-- Whether a node has the right slots does not depend on what it carries. -/
theorem kinded_map {registry : Registry} (onNode : ν → ν') (onToken : τ → τ') (onList : σ → σ')
    (node : SlotTree ν τ σ) :
    (node.map onNode onToken onList).Kinded registry ↔ node.Kinded registry := by
  obtain ⟨kind, info, slots⟩ := node
  simp only [Kinded, FitsBy, map, mapSlots_eq_map, SlotTree.kind, SlotTree.slots, List.length_map,
    List.zip_map_right, List.forall_mem_map, Prod.map, id_eq, fits_mapSlot]

end SlotTree

/-- Decorating gives each node the slots it has in the source. -/
theorem wellSlotted_of_decorate {source : SourceTree} {resolver : LineResolver}
    {tree : DecoratedTree} (done : (source.decorate .standard resolver).result = .ok tree) :
    tree.root.WellSlotted := by
  obtain ⟨kinded, assignments, -, rfl⟩ := decorate_eq_ok.mp done
  intro node mem
  have same := congrArg SlotTree.preorder (Decorate.erase_rebuild source.root
    (CommentGap.decorations none assignments) kinded)
  rw [Decorated.erase, Positional.erase, preorder_map, preorder_map] at same
  have erased := same ▸ List.mem_map_of_mem mem
  obtain ⟨original, isNode, alike⟩ := List.mem_map.mp erased
  have fine := kindFault?_eq_none_iff.mp (kinded original isNode)
  rwa [← kinded_map (fun _ => ()) Lexeme.text (fun _ => ()), alike, kinded_map] at fine

/-! ## Trees that constructors give -/

theorem wellSlotted_vacant (kind : NodeKind) : (vacant kind).WellSlotted := by
  refine wellSlotted_iff.mpr ⟨kinded_iff.mpr ?_, ?_⟩
  · refine List.forall₂_map_right_iff.mpr (List.forall₂_same.mpr fun shape _ => ?_)
    exact Slot.fits_vacant shape.slot
  · intro slot mem
    obtain ⟨shape, -, rfl⟩ := List.mem_map.mp mem
    cases shape.slot with
    | token => exact slotSound_token _
    | child => exact (slotSound_child _).mpr nofun
    | list => exact (slotSound_list _ _).mpr (List.forall_mem_nil _)

/-- Slots that fit the same shape are of the same kind. -/
theorem fits_of_fits {old slot : DecoratedSlot} {shape other : SlotShape}
    (held : old.fits shape = true) (fits : slot.fits shape = true) (alike : old.fits other = true) :
    slot.fits other = true := by
  cases shape <;> cases old <;> cases held <;> cases slot <;> cases fits <;> cases other <;>
    exact alike

/-- A slot may be filled with anything of its kind. -/
theorem wellSlotted_fill {node : Decorated} {anchor : Anchor} {shape : AnchorShape}
    {slot : DecoratedSlot} (sound : node.WellSlotted)
    (declared : (standardShape node.kind).find? anchor = some shape)
    (fits : slot.fits shape.slot = true) (inside : SlotSound slot) :
    (node.fill anchor slot).WellSlotted := by
  have related := slot?_of_kinded (wellSlotted_iff.mp sound).1 anchor
  rw [declared] at related
  generalize found : node.slot? anchor = held at related
  cases related with
  | some held =>
    exact wellSlotted_setSlot sound found (fun other => fits_of_fits held fits) inside

/-- So may one with the token that is prescribed for it. -/
theorem wellSlotted_fillFixed {node : Decorated} (sound : node.WellSlotted) (anchor : Anchor) :
    (node.fillFixed anchor).WellSlotted := by
  unfold fillFixed
  split
  · next declared => exact wellSlotted_fill sound declared rfl (slotSound_token _)
  · exact sound

/-! ## Every edit keeps the slots -/

theorem mem_of_apply {edit : ListEdit} {nodes after : List Decorated}
    (applied : edit.apply nodes = .ok after) :
    ∀ node ∈ after, node ∈ nodes ∨ node ∈ edit.nodes := by
  cases edit with
  | insert index new =>
    simp only [ListEdit.apply] at applied
    split at applied <;> cases applied
    intro node mem
    rcases List.mem_append.mp mem with front | behind
    · exact .inl (List.mem_of_mem_take front)
    · rcases List.mem_cons.mp behind with rfl | back
      · exact .inr List.mem_cons_self
      · exact .inl (List.mem_of_mem_drop back)
  | remove index =>
    simp only [ListEdit.apply] at applied
    split at applied <;> cases applied
    exact fun node mem => .inl (List.mem_of_mem_eraseIdx mem)
  | swap first second =>
    simp only [ListEdit.apply] at applied
    split at applied
    · cases applied
    · cases applied
    · next a b isFirst isSecond =>
      cases applied
      intro node mem
      rcases List.mem_or_eq_of_mem_set mem with mem | rfl
      · rcases List.mem_or_eq_of_mem_set mem with mem | rfl
        · exact .inl mem
        · exact .inl (List.mem_of_getElem? isSecond)
      · exact .inl (List.mem_of_getElem? isFirst)
  | reverse =>
    cases applied
    exact fun node mem => .inl (List.mem_reverse.mp mem)
  | clear =>
    cases applied
    exact fun node mem => (List.not_mem_nil mem).elim

/-- A change of a node keeps its slots. -/
theorem NodeEdit.wellSlotted_apply {change : NodeEdit} {node changed : Decorated}
    (sound : node.WellSlotted) (inserted : ∀ new ∈ change.nodes, new.WellSlotted)
    (applied : change.apply node = some changed) : changed.WellSlotted := by
  cases change with
  | setToken anchor text =>
    simp only [NodeEdit.apply, setToken] at applied
    split at applied
    · next old found =>
      cases applied
      exact wellSlotted_setSlot sound found (fun shape fits => by cases shape <;> exact fits)
        (slotSound_token _)
    · cases applied
  | setChild anchor child =>
    simp only [NodeEdit.apply, setChild] at applied
    split at applied
    · next old found =>
      cases applied
      refine wellSlotted_setSlot sound found (fun shape fits => by cases shape <;> exact fits) ?_
      exact (slotSound_child _).mpr fun tree mem => inserted tree (Option.mem_toList.mpr mem)
    · cases applied
  | editList anchor edit =>
    simp only [NodeEdit.apply, editList, SlotTree.elements?] at applied
    split at applied
    · next nodes listed =>
      split at listed <;> cases listed
      next found =>
      cases result : edit.apply nodes with
      | error fault => simp [result, Except.map, Except.toOption] at applied
      | ok after =>
        obtain rfl : node.setSlot anchor (.list after ()) = changed := by
          simpa [result, Except.map, Except.toOption] using applied
        refine wellSlotted_setSlot sound found (fun shape fits => by cases shape <;> exact fits) ?_
        have old := (slotSound_list _ _).mp (slotSound_of_slot? sound found)
        exact (slotSound_list _ _).mpr fun tree mem =>
          (mem_of_apply result tree mem).elim (old tree) (inserted tree)
    · cases applied
  | modifyDecoration anchor change =>
    cases applied
    obtain ⟨kinded, inside⟩ := wellSlotted_iff.mp sound
    exact wellSlotted_iff.mpr ⟨kinded_iff.mpr (kinded_iff.mp kinded), inside⟩

/-- An edit keeps the slots of a tree. -/
theorem Edit.wellSlotted_apply {edit : Edit} {tree : Decorated} (sound : tree.WellSlotted)
    (inserted : ∀ new ∈ edit.change.nodes, new.WellSlotted) : (edit.apply tree).WellSlotted := by
  unfold Edit.apply
  split
  · exact sound
  · next node found =>
    split
    · exact sound
    · next changed applied =>
      exact wellSlotted_put sound
        (NodeEdit.wellSlotted_apply (wellSlotted_of_follow sound found) inserted applied)

/-- Obtained trees have the slots of their kinds. -/
theorem wellSlotted_of_obtained {tree : Decorated} (obtained : Obtained tree) :
    tree.WellSlotted := by
  induction obtained with
  | decorated done => exact wellSlotted_of_decorate done
  | vacant kind => exact wellSlotted_vacant kind
  | ident name => exact wellSlotted_fill (wellSlotted_vacant _) rfl rfl (slotSound_token _)
  | basicLit value => exact wellSlotted_fill (wellSlotted_vacant _) rfl rfl (slotSound_token _)
  | exprStmt _ operand =>
    exact wellSlotted_fill (wellSlotted_vacant _) rfl rfl ((slotSound_child _).mpr (by simpa))
  | @call callee _ _ _ function each =>
    have called : ((Decorated.vacant .callExpr).fill .callee (.child (some callee))).WellSlotted :=
      wellSlotted_fill (wellSlotted_vacant _) rfl rfl ((slotSound_child _).mpr (by simpa))
    exact wellSlotted_fillFixed (wellSlotted_fill (wellSlotted_fillFixed called .lparen) rfl rfl
      ((slotSound_list _ _).mpr each)) .rparen
  | @assign lhs _ tok _ _ left right =>
    have assigned : ((Decorated.vacant .assignStmt).fill .lhs (.list lhs ())).WellSlotted :=
      wellSlotted_fill (wellSlotted_vacant _) rfl rfl ((slotSound_list _ _).mpr left)
    exact wellSlotted_fill (wellSlotted_fill assigned rfl rfl (slotSound_token _)) rfl rfl
      ((slotSound_list _ _).mpr right)
  | returnStmt _ each =>
    exact wellSlotted_fill (wellSlotted_fillFixed (wellSlotted_vacant _) .returnKw) rfl rfl
      ((slotSound_list _ _).mpr each)
  | edited edit _ _ before inserted => exact Edit.wellSlotted_apply before inserted
  | taken path _ found whole => exact wellSlotted_of_follow whole found

/-! ## What an edit does -/

/-- The shape of a kind has an anchor with such a slot. -/
def Declares (kind : NodeKind) (anchor : Anchor) (asks : SlotShape → Prop) : Prop :=
  ∃ shape, (standardShape kind).find? anchor = some shape ∧ asks shape.slot

/-- What comes of setting the content of an anchor at a path.  Either the shape has a slot of this
kind there, the old content is given back, and just that slot changes, or the shape has none, which
is the error, and the tree stays as it is. -/
inductive Sets {α : Type} (holds : α → DecoratedSlot) (asks : SlotShape → Prop) (cause : Mismatch)
    (tree : Decorated) (path : Path) (node : Decorated) (anchor : Anchor) (content : α)
    (result : Except TreeError (α × Decorated)) (after : Decorated) : Prop
  | done {old : α} {changed : Decorated} (declared : Declares node.kind anchor asks)
      (found : node.slot? anchor = some (holds old)) (ok : result = .ok (old, changed))
      (only : ChangedBelow anchor (holds content) path tree after)
  | refused (undeclared : ¬Declares node.kind anchor asks)
      (error : result = .error (.mismatch node.kind anchor cause)) (same : after = tree)

/-- The slot of a token. -/
def SlotShape.IsToken (shape : SlotShape) : Prop := ∃ text, shape = .token text

/-- What makes a tree fit to be edited and restored. -/
structure ShapeCorrect (tree : Decorated) : Prop where
  /-- Each node has one slot of the right kind for each anchor. -/
  slotted : ∀ node ∈ tree.preorder, node.slots.length = (standardShape node.kind).anchors.length ∧
    ∀ pair ∈ (standardShape node.kind).anchors.zip node.slots, pair.2.fits pair.1.slot = true
  setToken : ∀ (path : Path) (node : Decorated) (anchor : Anchor) (text : Option String),
    tree.follow path = .ok node →
    Sets .token SlotShape.IsToken .notToken tree path node anchor text (node.setToken anchor text)
      (Edit.apply ⟨path, .setToken anchor text⟩ tree)
  setChild : ∀ (path : Path) (node : Decorated) (anchor : Anchor) (child : Option Decorated),
    tree.follow path = .ok node →
    Sets .child (· = .child) .notNode tree path node anchor child (node.setChild anchor child)
      (Edit.apply ⟨path, .setChild anchor child⟩ tree)
  /-- What restoring can find wrong is what a slot of some node holds. -/
  restored : ∀ metadata error,
    (DecoratedTree.restore ⟨tree, metadata⟩ .standard).result = .error error →
      ∃ node ∈ tree.preorder, ∃ shape ∈ (standardShape node.kind).anchors, ∃ cause,
        error = .mismatch node.kind shape.anchor cause ∧
        (cause = .missing ∨ (∃ other, cause = .presentWithout other) ∨
          (∃ other, cause = .missingAlthough other) ∨
          ∃ expected found, cause = .fixedText expected found)

section Outcomes

variable {tree node : Decorated} {path : Path} (sound : tree.WellSlotted)
  (found : tree.follow path = .ok node)
include sound found

/-- Which anchors hold what is told by the kind of the node alone. -/
theorem declares_iff {α : Type} (holds : α → DecoratedSlot) (asks : SlotShape → Prop)
    (anchor : Anchor)
    (agree : ∀ shape (slot : DecoratedSlot), slot.fits shape = true →
      (asks shape ↔ ∃ content, slot = holds content)) :
    Declares node.kind anchor asks ↔ ∃ content, node.slot? anchor = some (holds content) := by
  have kinded := (wellSlotted_iff.mp (wellSlotted_of_follow sound found)).1
  unfold Declares
  have related := slot?_of_kinded kinded anchor
  generalize (standardShape node.kind).find? anchor = declared, node.slot? anchor = held
    at related ⊢
  cases related with
  | none => simp
  | @some shape slot fits => simpa using agree shape.slot slot fits

theorem sets_token (anchor : Anchor) (text : Option String) :
    Sets .token SlotShape.IsToken .notToken tree path node anchor text (node.setToken anchor text)
      (Edit.apply ⟨path, .setToken anchor text⟩ tree) := by
  have declared := declares_iff sound found .token SlotShape.IsToken anchor
    fun shape slot fits => by cases shape <;> cases slot <;> simp_all [SlotShape.IsToken, Slot.fits]
  by_cases isToken : ∃ old, node.slot? anchor = some (.token old)
  · obtain ⟨old, slot⟩ := isToken
    refine .done (declared.mpr ⟨old, slot⟩) slot (by rw [setToken, slot]) ?_
    simp only [Edit.apply, found, NodeEdit.apply, setToken, slot]
    exact changedBelow_put found (changedAt_setSlot slot _)
  · have refused : node.setToken anchor text = .error (.mismatch node.kind anchor .notToken) := by
      unfold setToken
      split
      · next old slot => exact (isToken ⟨old, slot⟩).elim
      · rfl
    refine .refused (mt declared.mp isToken) refused ?_
    simp only [Edit.apply, found, NodeEdit.apply, refused]
    rfl

theorem sets_child (anchor : Anchor) (child : Option Decorated) :
    Sets .child (· = .child) .notNode tree path node anchor child (node.setChild anchor child)
      (Edit.apply ⟨path, .setChild anchor child⟩ tree) := by
  have declared := declares_iff sound found .child (· = .child) anchor
    fun shape slot fits => by cases shape <;> cases slot <;> simp_all [Slot.fits]
  by_cases isChild : ∃ old, node.slot? anchor = some (.child old)
  · obtain ⟨old, slot⟩ := isChild
    refine .done (declared.mpr ⟨old, slot⟩) slot (by rw [setChild, slot]) ?_
    simp only [Edit.apply, found, NodeEdit.apply, setChild, slot]
    exact changedBelow_put found (changedAt_setSlot slot _)
  · have refused : node.setChild anchor child = .error (.mismatch node.kind anchor .notNode) := by
      unfold setChild
      split
      · next old slot => exact (isChild ⟨old, slot⟩).elim
      · rfl
    refine .refused (mt declared.mp isChild) refused ?_
    simp only [Edit.apply, found, NodeEdit.apply, refused]
    rfl

end Outcomes

/-! ## What restoring finds -/

/-- The fault of a node with the right slots is in what a slot holds. -/
theorem content_of_misfits {node : Decorated} {error : TreeError} (kinded : node.Kinded .standard)
    (misfits : node.Misfits .standard error) :
    ∃ shape ∈ (standardShape node.kind).anchors, ∃ cause,
      error = .mismatch node.kind shape.anchor cause ∧
      (cause = .missing ∨ (∃ other, cause = .presentWithout other) ∨
        (∃ other, cause = .missingAlthough other) ∨
        ∃ expected found, cause = .fixedText expected found) := by
  obtain ⟨_, known, counted, fits⟩ := kinded
  obtain rfl := Option.some.inj known
  cases misfits with
  | unknownShape unknown => cases unknown
  | slotCount shape known differ =>
    obtain rfl := Option.some.inj known
    exact (differ counted).elim
  | slot shape known _ front back anchor slot split _ cause here =>
    obtain rfl := Option.some.inj known
    have mem : (anchor, slot) ∈ (standardShape node.kind).anchors.zip node.slots := by simp [split]
    refine ⟨anchor, (List.of_mem_zip mem).1, cause, rfl, ?_⟩
    cases here with
    | holds wrong =>
      cases wrong with
      | slotKind differs => exact nomatch (fits _ mem).symm.trans differs
      | fixedText expected found => exact .inr (.inr (.inr ⟨expected, found, rfl⟩))
    | filled _ wrong =>
      cases wrong with
      | missing => exact .inl rfl
      | presentWithout other => exact .inr (.inl ⟨other, rfl⟩)
      | missingAlthough other => exact .inr (.inr (.inl ⟨other, rfl⟩))

/-- A well slotted tree may be edited and restored. -/
theorem shapeCorrect_of_wellSlotted {tree : Decorated} (sound : tree.WellSlotted) :
    ShapeCorrect tree where
  slotted := by
    intro node mem
    obtain ⟨_, known, counted, fits⟩ := sound node mem
    obtain rfl := Option.some.inj known
    exact ⟨counted.symm, fits⟩
  setToken := fun _ _ anchor text found => sets_token sound found anchor text
  setChild := fun _ _ anchor child found => sets_child sound found anchor child
  restored := by
    intro metadata error failed
    rw [result_restore] at failed
    obtain ⟨front, node, back, split, -, misfits⟩ :=
      (unlessFault_eq_error_iff (fun _ => fault?_eq_none_iff)
        (fun _ _ => fault?_eq_some_iff)).mp failed
    have mem : node ∈ tree.preorder := by
      rw [show tree.preorder = _ from split]
      exact List.mem_append_right _ List.mem_cons_self
    exact ⟨node, mem, content_of_misfits (sound node mem) misfits⟩

theorem obtained_edited {tree : Decorated} (obtained : Obtained tree) (edits : List Edit)
    (inserted : ∀ edit ∈ edits, ∀ node ∈ edit.change.nodes, Obtained node) :
    Obtained (tree.edited edits) := by
  induction edits generalizing tree with
  | nil => exact obtained
  | cons edit edits ih =>
    rw [List.forall_mem_cons] at inserted
    exact ih (.edited edit obtained inserted.1) inserted.2

/-- **Edits keep the shapes.** However a tree was obtained, and whatever edits follow, its slots are
right, edits of tokens and children do what they say or nothing, and restoring finds no fault but in
what slots hold. -/
theorem shapeCorrect_edited {tree : Decorated} (obtained : Obtained tree) (edits : List Edit)
    (inserted : ∀ edit ∈ edits, ∀ node ∈ edit.change.nodes, Obtained node) :
    ShapeCorrect (tree.edited edits) :=
  shapeCorrect_of_wellSlotted (wellSlotted_of_obtained (obtained_edited obtained edits inserted))

/-- A call whose argument is replaced by a call that has lost its closing parenthesis. -/
theorem brokenCall_shapeCorrect :
    ShapeCorrect (Decorated.edited (.exprStmt (.call (.ident "f") [.ident "x"]))
      [⟨[.child .x], .editList .args (.remove 0)⟩,
        ⟨[.child .x], .editList .args (.insert 0 (.call (.ident "g") []))⟩,
        ⟨[.child .x, .element .args 0], .setToken .rparen none⟩]) := by
  refine shapeCorrect_edited (.exprStmt (.call (.ident "f") ?_)) _ ?_
  · rintro _ (_ | _)
    · exact .ident "x"
    · contradiction
  · have inserted : Obtained (.call (.ident "g") []) := .call (.ident "g") (List.forall_mem_nil _)
    simpa [NodeEdit.nodes, ListEdit.nodes] using inserted

end GoTrivia

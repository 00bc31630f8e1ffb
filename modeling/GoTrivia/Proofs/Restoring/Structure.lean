import GoTrivia.Proofs.Decorating.Points
import GoTrivia.Proofs.Restoring.Accepting
import GoTrivia.Proofs.Tree.Erasing
import GoTrivia.Proofs.Tree.Faults

/-!
# Decorating and restoring keep the tree

Decorating a tree takes away its spans and separators and adds trivia; restoring takes away
trivia and makes up spans and separators.  Without what is carried beside kinds, slots and token
texts, the tree stays the same in both directions, and so does the metadata.  What restoring
makes up for a list is one separator behind each element if the shape of the list has separators,
and none otherwise.
-/

set_option autoImplicit false

namespace GoTrivia

open Decorate Restore

/-! ## What a walk gives back -/

namespace Restore

variable {α β : Type}

/-- Whatever its counter and log, a walk gives back something of a kind. -/
def Gives (what : α → Prop) (walk : Synth α) : Prop := ∀ state, what (walk.run state).1

namespace Gives

theorem pure {what : α → Prop} {value : α} (holds : what value) : Gives what (Pure.pure value) :=
  fun _ => holds

theorem bind {first : α → Prop} {what : β → Prop} {walk : Synth α} {next : α → Synth β}
    (gives : Gives first walk) (rest : ∀ value, first value → Gives what (next value)) :
    Gives what (walk >>= next) :=
  fun state => rest _ (gives state) _

/-- Nothing need be known about what a walk gives back on the way. -/
theorem after {what : β → Prop} {walk : Synth α} {next : α → Synth β}
    (rest : ∀ value, Gives what (next value)) : Gives what (walk >>= next) :=
  fun _ => rest _ _

end Gives

end Restore

/-! ## What is placed for a tree -/

/-- A list has a separator behind each element if its shape has separators, and none otherwise. -/
def AnchorShape.Separates (shape : AnchorShape) (slot : PositionalSlot) : Prop :=
  ∀ elements separators, slot = .list elements separators →
    separators.length = if isSeparated shape.slot then elements.length else 0

/-- A node has a slot for each anchor of its shape, and its lists have the separators their
shapes ask for. -/
structure WellSeparated (registry : Registry) (node : Positional) : Prop where
  counted : (registry.anchorsOf node.kind).length = node.slots.length
  separates : ∀ pair ∈ (registry.anchorsOf node.kind).zip node.slots, pair.1.Separates pair.2

/-- What is placed for a tree is the same tree, and its lists have the separators their shapes
ask for. -/
structure Copies (registry : Registry) (tree : Decorated) (placed : Positional) : Prop where
  erase : placed.erase = tree.erase
  separated : ∀ node ∈ placed.preorder, WellSeparated registry node

/-- What is placed for a slot is the same slot. -/
structure CopiesSlot (registry : Registry) (shape : AnchorShape) (slot : DecoratedSlot)
    (placed : PositionalSlot) : Prop where
  erase : SlotTree.mapSlot (fun _ => ()) Lexeme.text (fun _ => ()) placed =
    SlotTree.mapSlot (fun _ => ()) id id slot
  separates : shape.Separates placed
  separated : ∀ node ∈ SlotTree.preorderSlots [placed], WellSeparated registry node

/-- What is placed for slots are the same slots. -/
structure CopiesSlots (registry : Registry) (shapes : List AnchorShape)
    (slots : List DecoratedSlot) (placed : List PositionalSlot) : Prop where
  erase : SlotTree.mapSlots (fun _ => ()) Lexeme.text (fun _ => ()) placed =
    SlotTree.mapSlots (fun _ => ()) id id slots
  separates : ∀ pair ∈ shapes.zip placed, pair.1.Separates pair.2
  separated : ∀ node ∈ SlotTree.preorderSlots placed, WellSeparated registry node

/-- What is placed for list elements are the same elements, with a separator behind each or none
at all. -/
structure CopiesElements (registry : Registry) (separated : Bool) (trees : List Decorated)
    (placed : List Positional × List Span) : Prop where
  erase : SlotTree.mapElements (fun _ => ()) Lexeme.text (fun _ => ()) placed.1 =
    SlotTree.mapElements (fun _ => ()) id id trees
  count : placed.2.length = if separated then placed.1.length else 0
  separated : ∀ node ∈ SlotTree.preorderElements placed.1, WellSeparated registry node

variable {registry : Registry}

/-! ## The pieces -/

theorem CopiesSlots.nil (shapes : List AnchorShape) : CopiesSlots registry shapes [] [] where
  erase := rfl
  separates := by simp
  separated := by simp [SlotTree.preorderSlots]

theorem CopiesSlots.length {shapes : List AnchorShape} {slots : List DecoratedSlot}
    {placed : List PositionalSlot} (copies : CopiesSlots registry shapes slots placed) :
    placed.length = slots.length := by
  simpa [SlotTree.mapSlots_eq_map] using congrArg List.length copies.erase

theorem CopiesSlots.cons {shape : AnchorShape} {shapes : List AnchorShape} {slot : DecoratedSlot}
    {slots : List DecoratedSlot} {placed : PositionalSlot} {rest : List PositionalSlot}
    (here : CopiesSlot registry shape slot placed)
    (there : CopiesSlots registry shapes slots rest) :
    CopiesSlots registry (shape :: shapes) (slot :: slots) (placed :: rest) where
  erase := by
    have others := there.erase
    rw [SlotTree.mapSlots_eq_map, SlotTree.mapSlots_eq_map] at others ⊢
    rw [List.map_cons, List.map_cons, here.erase, others]
  separates := List.forall_mem_cons.mpr ⟨here.separates, there.separates⟩
  separated := by
    rw [SlotTree.preorderSlots_cons]
    exact List.forall_mem_append.mpr ⟨here.separated, there.separated⟩

theorem CopiesElements.nil (separated : Bool) : CopiesElements registry separated [] ([], []) where
  erase := rfl
  count := by simp
  separated := by simp [SlotTree.preorderElements]

/-- One more element comes with one more separator, if lists have them. -/
theorem CopiesElements.cons {separated : Bool} {tree : Decorated} {trees : List Decorated}
    {placed : Positional} {rest : List Positional × List Span} (offset : Nat)
    (here : Copies registry tree placed) (there : CopiesElements registry separated trees rest) :
    CopiesElements registry separated (tree :: trees)
      (placed :: rest.1, if separated then .point offset :: rest.2 else rest.2) where
  erase := by
    have first := here.erase
    rw [Positional.erase, Decorated.erase] at first
    rw [SlotTree.mapElements, SlotTree.mapElements, first, there.erase]
  count := by
    have count := there.count
    cases separated <;> simpa using count
  separated := by
    rw [SlotTree.preorderElements]
    exact List.forall_mem_append.mpr ⟨here.separated, there.separated⟩

/-! ## Placing -/

mutual
/-- What is placed for a tree without faults is the same tree. -/
theorem gives_enclosed : ∀ tree : Decorated, Faultless registry tree.preorder →
    Gives (Copies registry tree) (enclosed registry tree)
  | .node kind decorations slots, faultless => by
      rw [SlotTree.preorder] at faultless
      obtain ⟨here, below⟩ := List.forall_mem_cons.mp faultless
      have counted := SlotTree.length_of_fault? here
      unfold enclosed
      refine .after fun start => .bind (gives_placeSlots kind decorations _ slots (Nat.le_of_eq counted.symm) below)
        fun placed copies => .after fun stop => .pure ⟨?_, ?_⟩
      · rw [Positional.erase, Decorated.erase, SlotTree.map, SlotTree.map, copies.erase]
      · rw [SlotTree.preorder]
        exact List.forall_mem_cons.mpr ⟨⟨counted.trans copies.length.symm, copies.separates⟩,
          copies.separated⟩

theorem gives_placeSlots (kind : NodeKind) (decorations : Decorations) :
    ∀ (shapes : List AnchorShape) (slots : List DecoratedSlot), slots.length ≤ shapes.length →
      Faultless registry (SlotTree.preorderSlots slots) →
      Gives (CopiesSlots registry shapes slots) (placeSlots registry kind decorations shapes slots)
  | shapes, [], _, _ => by
      unfold placeSlots
      exact .pure (.nil shapes)
  | [], slot :: slots, enough, _ => absurd enough (Nat.not_succ_le_zero _)
  | shape :: shapes, slot :: slots, enough, faultless => by
      rw [SlotTree.preorderSlots_cons] at faultless
      obtain ⟨first, below⟩ := List.forall_mem_append.mp faultless
      unfold placeSlots
      exact .bind (gives_placeSlot kind decorations shape slot first) fun placed here =>
        .bind (gives_placeSlots kind decorations shapes slots (Nat.le_of_succ_le_succ enough) below)
          fun rest there => .pure (.cons here there)

theorem gives_placeSlot (kind : NodeKind) (decorations : Decorations) (shape : AnchorShape) :
    ∀ slot : DecoratedSlot, Faultless registry (SlotTree.preorderSlots [slot]) →
      Gives (CopiesSlot registry shape slot) (placeSlot registry kind decorations shape slot)
  | .token none, _ => by
      unfold placeSlot
      exact .pure ⟨rfl, nofun, by simp [SlotTree.preorderSlots]⟩
  | .token (some text), _ => by
      unfold placeSlot
      exact .after fun offset => .pure ⟨rfl, nofun, by simp [SlotTree.preorderSlots]⟩
  | .child none, _ => by
      unfold placeSlot
      exact .pure ⟨rfl, nofun, by simp [SlotTree.preorderSlots]⟩
  | .child (some child), faultless => by
      rw [SlotTree.preorderSlots, SlotTree.preorderSlots, List.append_nil] at faultless
      unfold placeSlot
      refine .bind (gives_enclosed child faultless) fun placed copies => .after fun _ =>
        .after fun _ => .pure ⟨?_, nofun, ?_⟩
      · have erase := copies.erase
        rw [Positional.erase, Decorated.erase] at erase
        simp [SlotTree.mapSlot, erase]
      · simpa [SlotTree.preorderSlots] using copies.separated
  | .list elements _, faultless => by
      rw [SlotTree.preorderSlots, SlotTree.preorderSlots, List.append_nil] at faultless
      unfold placeSlot
      refine .bind (gives_placeElements (isSeparated shape.slot) elements faultless)
        fun placed copies => .pure ⟨?_, ?_, ?_⟩
      · have erase := copies.erase
        rw [SlotTree.mapElements_eq_map, SlotTree.mapElements_eq_map] at erase
        simp only [SlotTree.mapSlot, erase, id_eq]
      · rintro _ _ ⟨⟩
        exact copies.count
      · simpa [SlotTree.preorderSlots] using copies.separated

theorem gives_placeElements (separated : Bool) :
    ∀ trees : List Decorated, Faultless registry (SlotTree.preorderElements trees) →
      Gives (CopiesElements registry separated trees) (placeElements registry separated trees)
  | [], _ => by
      unfold placeElements
      exact .pure (.nil separated)
  | tree :: trees, faultless => by
      rw [SlotTree.preorderElements] at faultless
      obtain ⟨first, below⟩ := List.forall_mem_append.mp faultless
      have here := gives_enclosed tree first
      have there := gives_placeElements separated trees below
      unfold placeElements
      cases separated with
      | false => exact here.bind fun placed copies => .after fun _ =>
          there.bind fun rest others => .pure (.cons 0 copies others)
      | true => exact here.bind fun placed copies => .after fun offset => .after fun _ =>
          there.bind fun rest others => .pure (.cons offset copies others)
end

theorem copies_place {tree : DecoratedTree} (faultless : Faultless registry tree.root.preorder) :
    Copies registry tree.root (tree.place registry).root := by
  have gives : Gives (Copies registry tree.root) (placeTree registry tree.root) := by
    unfold placeTree
    exact .bind (gives_enclosed tree.root faultless) fun _ copies => .after fun _ => .pure copies
  exact gives ⟨0, #[]⟩

/-! ## Trees as a whole -/

theorem erase_of_decorate {source : SourceTree} {resolver : LineResolver} {tree : DecoratedTree}
    (decorated : (source.decorate registry resolver).result = .ok tree) :
    tree.root.erase = source.root.erase ∧ tree.metadata = source.metadata := by
  obtain ⟨kinded, assignments, -, rfl⟩ := decorate_eq_ok.mp decorated
  exact ⟨erase_rebuild source.root _ kinded, rfl⟩

/-- **Structure.** A decorated tree is the source tree without its positions, and a restored tree
is the decorated tree without its trivia, whatever edits the decorated tree went through, with a
separator behind each element of the lists that have separators.  So decorating and restoring
gives back the source tree, up to positions. -/
theorem erase_decorate_restore (registry registry' : Registry) :
    (∀ (source : SourceTree) (resolver : LineResolver) (tree : DecoratedTree),
      (source.decorate registry resolver).result = .ok tree →
        tree.root.erase = source.root.erase ∧ tree.metadata = source.metadata) ∧
    (∀ (tree : DecoratedTree) (restored : Restored),
      (tree.restore registry').result = .ok restored →
        restored.root.erase = tree.root.erase ∧ restored.metadata = tree.metadata ∧
          ∀ node ∈ restored.root.preorder, WellSeparated registry' node) ∧
    ∀ (source : SourceTree) (resolver : LineResolver) (tree : DecoratedTree) (restored : Restored),
      (source.decorate registry resolver).result = .ok tree →
      (tree.restore registry').result = .ok restored →
        restored.root.erase = source.root.erase ∧ restored.metadata = source.metadata := by
  refine ⟨fun source resolver tree decorated => ?_, fun tree restored accepted => ?_,
    fun source resolver tree restored decorated accepted => ?_⟩
  · exact erase_of_decorate decorated
  · obtain ⟨faultless, rfl⟩ := restore_eq_ok_iff.mp accepted
    have copies := copies_place faultless
    exact ⟨copies.erase, rfl, copies.separated⟩
  · obtain ⟨erased, metadata⟩ := erase_of_decorate decorated
    obtain ⟨faultless, rfl⟩ := restore_eq_ok_iff.mp accepted
    exact ⟨(copies_place faultless).erase.trans erased, metadata⟩

/-- A call with a comment behind its first argument, and with no separator behind its second. -/
def trailingArgument : SourceTree where
  root := .node .callExpr ⟨0, 17⟩
    [.child (some (.node .ident ⟨0, 1⟩ [.token (some ⟨"f", ⟨0, 1⟩⟩)])),
     .token (some ⟨"(", ⟨1, 2⟩⟩),
     .list [.node .ident ⟨2, 3⟩ [.token (some ⟨"a", ⟨2, 3⟩⟩)],
       .node .ident ⟨13, 14⟩ [.token (some ⟨"b", ⟨13, 14⟩⟩)]] [⟨3, 4⟩],
     .token none, .token (some ⟨")", ⟨16, 17⟩⟩)]
  comments := [⟨"/* b */", ⟨5, 12⟩⟩]
  metadata := .empty

theorem erase_decorate_restore_trailingArgument :
    ∃ tree restored, (trailingArgument.decorate .standard { lineOf? := some }).result = .ok tree ∧
      (tree.restore .standard).result = .ok restored ∧
      tree.root.erase = trailingArgument.root.erase ∧
      restored.root.erase = trailingArgument.root.erase ∧
      ∀ node ∈ restored.root.preorder, WellSeparated .standard node := by
  have succeeds : ((trailingArgument.decorate .standard { lineOf? := some }).result.bind fun tree =>
      (tree.restore .standard).result).toOption.isSome = true := by
    decide +kernel
  obtain ⟨forth, back, around⟩ := erase_decorate_restore .standard .standard
  cases decorated : (trailingArgument.decorate .standard { lineOf? := some }).result with
  | error error => simp [decorated, Except.bind, Except.toOption] at succeeds
  | ok tree =>
    cases accepted : (tree.restore .standard).result with
    | error error => simp [decorated, accepted, Except.bind, Except.toOption] at succeeds
    | ok restored =>
      exact ⟨tree, restored, rfl, accepted, (forth _ _ _ decorated).1,
        (around _ _ _ _ decorated accepted).1, (back _ _ accepted).2.2⟩

end GoTrivia

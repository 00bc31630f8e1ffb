import GoTrivia.Proofs.Grammar.Growing
import GoTrivia.Proofs.Printing.TrailingSeparators
import GoTrivia.Proofs.Tree.Replacing

/-!
# Where printing a tree leads

Whatever printing a tree leads to belongs to the tree (`inside_of_reached`), and it leads to every
node (`hasWay_tree`).
-/

set_option autoImplicit false

namespace GoTrivia

open Print (ListPlan)
open SlotTree (preorderSlots preorderElements)

variable {registry : Registry}

/-! ## Where a task belongs -/

theorem SlotTree.mem_preorderSlots_of_mem_trees {ν τ σ : Type} {node : SlotTree ν τ σ}
    {slot : Slot ν τ σ} {slots : List (Slot ν τ σ)} (mem : slot ∈ slots) (held : node ∈ slot.trees) :
    node ∈ preorderSlots slots := by
  refine preorderSlots_subset_of_mem mem ?_
  cases slot with
  | token => cases held
  | child content =>
    obtain rfl : content = some node := by simpa [Slot.trees] using held
    simpa [preorderSlots] using node.self_mem_preorder
  | list elements separators =>
    rw [preorderSlots, preorderSlots, List.append_nil]
    exact preorder_subset_of_mem held node.self_mem_preorder

theorem SlotTree.mem_preorder_of_mem_trees {ν τ σ : Type} {tree node : SlotTree ν τ σ}
    {slot : Slot ν τ σ} (mem : slot ∈ tree.slots) (held : node ∈ slot.trees) :
    node ∈ tree.preorder := by
  obtain ⟨kind, info, slots⟩ := tree
  rw [preorder]
  exact List.mem_cons_of_mem _ (mem_preorderSlots_of_mem_trees mem held)

/-- What a task goes over belongs to a tree. -/
def Task.Inside (registry : Registry) (root : Positional) : Task → Prop
  | .tree part => part ∈ root.preorder
  | .slots node _ shapes below => node ∈ root.preorder ∧
      ∃ front : List (AnchorShape × PositionalSlot),
        registry.anchorsOf node.kind = front.map Prod.fst ++ shapes ∧
        node.slots = front.map Prod.snd ++ below
  | .elements _ _ _ _ trees => ∀ tree ∈ trees, tree ∈ root.preorder

theorem Task.Inside.mem {root node : Positional} {tokens : Nat}
    {shapes : List AnchorShape} {slots : List PositionalSlot}
    (inside : Task.Inside registry root (.slots node tokens shapes slots)) {slot : PositionalSlot}
    (mem : slot ∈ slots) {tree : Positional} (held : tree ∈ slot.trees) : tree ∈ root.preorder := by
  obtain ⟨isNode, front, -, split⟩ := inside
  refine SlotTree.preorder_subset_of_mem_preorder root isNode ?_
  exact SlotTree.mem_preorder_of_mem_trees (split ▸ List.mem_append_right _ mem) held

/-- What comes as part of something else belongs where that does. -/
theorem inside_of_calls {root : Positional} {whole part : Task × Script}
    (calls : Calls registry whole part) (inside : whole.1.Inside registry root) :
    part.1.Inside registry root ∧ Script.Onward whole.2 part.2 := by
  cases calls with
  | slots kind span slots script => exact ⟨⟨inside, [], rfl, rfl⟩, .refl _⟩
  | rest node tokens shape shapes slot slots script =>
    refine ⟨⟨inside.1, ?_⟩, Script.onward_slot node tokens shape slots slot script⟩
    obtain ⟨front, isShapes, isSlots⟩ := inside.2
    exact ⟨front ++ [(shape, slot)], by simp [isShapes], by simp [isSlots]⟩
  | child node tokens shape shapes child slots script =>
    exact ⟨inside.mem List.mem_cons_self (show child ∈ [child] from List.mem_cons_self),
      script.onward_askGap tokens shape.gap⟩
  | elements node tokens shape shapes layout isList elements separators slots script =>
    exact ⟨fun tree mem => inside.mem List.mem_cons_self mem, .refl script⟩
  | element tokens plan first separators element elements script =>
    exact ⟨inside element List.mem_cons_self, script.onward_askElement tokens plan first⟩
  | others tokens plan first separators element elements script =>
    refine ⟨fun tree mem => inside tree (List.mem_cons_of_mem element mem), ?_⟩
    exact (script.onward_askElement tokens plan first).trans
      ((Script.onward_tree element _).trans (Script.onward_separator _ plan _ _))

/-- Whatever is reached belongs to the tree. -/
theorem inside_of_reached {root : Positional} {table : List CommentEntry} {part : Task × Script}
    (reached : Relation.ReflTransGen (Calls registry) (.tree root, .start table) part) :
    part.1.Inside registry root ∧ part.2.table <:+ table := by
  induction reached with
  | refl => exact ⟨root.self_mem_preorder, List.suffix_rfl⟩
  | tail _ calls ih =>
    obtain ⟨inside, onward⟩ := inside_of_calls calls ih.1
    exact ⟨inside, onward.table.trans ih.2⟩

/-! ## Ways to nodes -/

/-- A node the slots of which are those of its shape, list by list. -/
abbrev InShape (registry : Registry) (node : Positional) : Prop :=
  List.Forall₂ (fun shape slot => Slot.fits shape.slot slot = true) (registry.anchorsOf node.kind)
    node.slots

/-- There is a way from something to a tree. -/
def HasWay (registry : Registry) (whole : Task × Script) (tree : Positional) : Prop :=
  ∃ script, Relation.ReflTransGen (Calls registry) whole (.tree tree, script)

theorem HasWay.head {whole part : Task × Script} {tree : Positional}
    (calls : Calls registry whole part) (way : HasWay registry part tree) :
    HasWay registry whole tree := by
  obtain ⟨script, reached⟩ := way
  exact ⟨script, .head calls reached⟩

variable {node : Positional}

mutual
/-- There is a way to every node of a tree in shape. -/
theorem hasWay_tree : ∀ (tree : Positional) (script : Script),
    (∀ node ∈ tree.preorder, InShape registry node) → node ∈ tree.preorder →
    HasWay registry (.tree tree, script) node
  | .node kind span slots, script, inShape, mem => by
      rw [SlotTree.preorder] at inShape mem
      obtain ⟨here, below⟩ := List.forall_mem_cons.mp inShape
      rcases List.mem_cons.mp mem with rfl | mem
      · exact ⟨script, .refl⟩
      · exact .head (.slots kind span slots script)
          (hasWay_slots _ _ (registry.anchorsOf kind) slots script here below mem)

theorem hasWay_slots (owner : Positional) (tokens : Nat) :
    ∀ (shapes : List AnchorShape) (slots : List PositionalSlot) (script : Script),
      List.Forall₂ (fun shape slot => Slot.fits shape.slot slot = true) shapes slots →
      (∀ node ∈ preorderSlots slots, InShape registry node) → node ∈ preorderSlots slots →
      HasWay registry (.slots owner tokens shapes slots, script) node
  | _, [], _, _, _, mem => by cases mem
  | [], _ :: _, _, fits, _, _ => by cases fits
  | shape :: shapes, slot :: slots, script, fits, inShape, mem => by
      obtain ⟨fit, fits⟩ := List.forall₂_cons.mp fits
      rw [SlotTree.preorderSlots_cons] at inShape mem
      obtain ⟨inside, behind⟩ := List.forall_mem_append.mp inShape
      rcases List.mem_append.mp mem with here | there
      · exact hasWay_slot owner tokens shape shapes slots slot script fit inside here
      · exact .head (.rest owner tokens shape shapes slot slots script)
          (hasWay_slots owner tokens shapes slots _ fits behind there)

theorem hasWay_slot (owner : Positional) (tokens : Nat) (shape : AnchorShape)
    (shapes : List AnchorShape) (slots : List PositionalSlot) :
    ∀ (slot : PositionalSlot) (script : Script), slot.fits shape.slot = true →
      (∀ node ∈ preorderSlots [slot], InShape registry node) → node ∈ preorderSlots [slot] →
      HasWay registry (.slots owner tokens (shape :: shapes) (slot :: slots), script) node
  | .token _, _, _, _, mem => by cases mem
  | .child none, _, _, _, mem => by cases mem
  | .child (some child), script, _, inShape, mem => by
      rw [preorderSlots, preorderSlots, List.append_nil] at inShape mem
      exact .head (.child owner tokens shape shapes child slots script)
        (hasWay_tree child _ inShape mem)
  | .list elements separators, script, fit, inShape, mem => by
      rw [preorderSlots, preorderSlots, List.append_nil] at inShape mem
      cases isList : shape.slot with
      | token | child => simp [isList, Slot.fits] at fit
      | list layout =>
        exact .head
          (.elements owner tokens shape shapes layout isList elements separators slots script)
          (hasWay_elements _ _ _ _ elements _ inShape mem)

theorem hasWay_elements (tokens : Nat) (plan : ListPlan) :
    ∀ (first : Bool) (separators : List Span) (elements : List Positional) (script : Script),
      (∀ node ∈ preorderElements elements, InShape registry node) →
      node ∈ preorderElements elements →
      HasWay registry (.elements tokens plan first separators elements, script) node
  | _, _, [], _, _, mem => by cases mem
  | first, separators, element :: elements, script, inShape, mem => by
      rw [preorderElements] at inShape mem
      obtain ⟨inside, behind⟩ := List.forall_mem_append.mp inShape
      rcases List.mem_append.mp mem with here | there
      · exact .head (.element tokens plan first separators element elements script)
          (hasWay_tree element _ inside here)
      · exact .head (.others tokens plan first separators element elements script)
          (hasWay_elements tokens plan false _ elements _ behind there)
end

/-- There is a way over the slots in front of others. -/
theorem hasWay_rest (node : Positional) (tokens : Nat) (shapes : List AnchorShape)
    (slots : List PositionalSlot) (front : List (AnchorShape × PositionalSlot)) (script : Script) :
    ∃ later, Relation.ReflTransGen (Calls registry)
      (.slots node tokens (front.map Prod.fst ++ shapes) (front.map Prod.snd ++ slots), script)
      (.slots node tokens shapes slots, later) := by
  induction front generalizing script with
  | nil => exact ⟨script, .refl⟩
  | cons pair front ih =>
    obtain ⟨later, reached⟩ := ih _
    exact ⟨later, .head (.rest node tokens pair.1 _ pair.2 _ script) reached⟩

end GoTrivia

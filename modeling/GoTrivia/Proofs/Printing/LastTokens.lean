import GoTrivia.Proofs.Decorating.Layout
import GoTrivia.Proofs.Grammar.GrownNodes
import GoTrivia.Proofs.Printing.TrailingSeparators
import GoTrivia.Proofs.Tree.Replacing
import GoTrivia.Proofs.Tree.Tokens

/-!
# Where a tree halts

Behind a tree, the last cue is the last token of the tree, and no row is left that belongs in front
of that token.  This holds for a tree whose nodes all have tokens, as long as no list on lines of its
own is the last thing in it (`Halting`), since behind such a list the layout asks for a line.

**Induction.** A script goes from slot to slot and from element to element.  What has no tokens
leaves it as it is, so the last token belongs to the last thing that has any.
-/

set_option autoImplicit false

namespace GoTrivia

open Print (ListPlan nextToken? isLines)
open SlotTree (tokensSlots tokensSlot tokensElements preorderSlots preorderElements)

variable {registry : Registry}

/-- Kinds of nodes that may end with a list on lines. -/
def NodeKind.isOpenEnded : NodeKind → Bool
  | file | caseClause => true
  | _ => false

/-- A slot that may be the last one of a node: it holds no list on lines, and nothing that may end
with one. -/
structure LastSlot (node : Positional) (shape : AnchorShape) (slot : PositionalSlot) : Prop where
  fits : slot.fits shape.slot = true
  onLine : ∀ layout, shape.slot = .list layout → slot.isPresent = true →
    isLines node layout.style = false
  trees : ∀ tree ∈ slot.trees, tree.kind.isOpenEnded = false

/-- A node with tokens, the last of which stands in a slot that may be the last one. -/
structure Halting (registry : Registry) (node : Positional) : Prop where
  filled : node.tokens ≠ []
  counted : (registry.anchorsOf node.kind).length = node.slots.length
  last : node.kind.isOpenEnded = false → ∀ ⦃shape shapes slot slots⦄,
    shape :: shapes <:+ registry.anchorsOf node.kind → slot :: slots <:+ node.slots →
    shapes.length = slots.length → tokensSlots slots = [] → LastSlot node shape slot

/-! ## Slots without tokens -/

section Silent

variable {slots : List PositionalSlot}

/-- If all nodes have tokens, slots without tokens are empty. -/
theorem absent_of_tokensSlots (filled : ∀ node ∈ preorderSlots slots, node.tokens ≠ [])
    (silent : tokensSlots slots = []) : ∀ slot ∈ slots, slot.isPresent = false := by
  induction slots with
  | nil => exact List.forall_mem_nil _
  | cons slot slots ih =>
    rw [SlotTree.preorderSlots_cons] at filled
    obtain ⟨first, others⟩ := List.forall_mem_append.mp filled
    rw [tokensSlots, List.append_eq_nil_iff] at silent
    refine List.forall_mem_cons.mpr ⟨?_, ih others silent.2⟩
    cases slot with
    | token content =>
      cases content with
      | none => rfl
      | some lexeme => cases silent.1
    | child content =>
      cases content with
      | none => rfl
      | some child =>
        refine absurd silent.1 (first child ?_)
        simpa [preorderSlots] using child.self_mem_preorder
    | list elements separators =>
      cases elements with
      | nil => rfl
      | cons element elements =>
        have here : element ∈ preorderSlots [.list (element :: elements) separators] := by
          simp [preorderSlots, preorderElements, element.self_mem_preorder]
        have none := silent.1
        rw [tokensSlot, tokensElements, List.append_eq_nil_iff] at none
        exact absurd none.1 (first element here)

theorem nextToken?_eq_none (absent : ∀ slot ∈ slots, slot.isPresent = false) :
    nextToken? slots = none := by
  induction slots with
  | nil => rfl
  | cons slot slots ih =>
    obtain ⟨here, others⟩ := List.forall_mem_cons.mp absent
    cases slot with
    | token content =>
      obtain rfl : content = none := by simpa [Slot.isPresent] using here
      exact ih others
    | child content => simpa [nextToken?, here] using ih others
    | list elements separators => simpa [nextToken?, here] using ih others

/-- Empty slots leave a script as it is. -/
theorem Script.slots_eq_self (node : Positional) (tokens : Nat) {shapes : List AnchorShape}
    (counted : shapes.length = slots.length) (absent : ∀ slot ∈ slots, slot.isPresent = false)
    (script : Script) : Script.slots registry node tokens shapes slots script = script := by
  have vacant := @Script.slots_vacant registry node tokens [] [] script (shapes.zip slots)
    fun pair mem => absent pair.2 (List.of_mem_zip mem).2
  rwa [List.map_fst_zip (Nat.le_of_eq counted), List.map_snd_zip (Nat.le_of_eq counted.symm),
    List.append_nil, List.append_nil] at vacant

end Silent

/-! ## Halting -/

namespace Script

/-- The last cue is a token, and no row is left that belongs in front of it. -/
structure Halts (script : Script) (lexeme : Lexeme) : Prop where
  last : ∃ past, script.past = .step (.token lexeme.text) :: past
  ahead : ∀ row ∈ script.table, lexeme.span.start ≤ row.offset

/-- The rows that are still to come stand in order. -/
def Ascending (script : Script) : Prop := script.table.Pairwise (·.offset < ·.offset)

theorem Ascending.onward {script later : Script} (ascending : script.Ascending)
    (onward : Onward script later) : later.Ascending :=
  ascending.sublist onward.table.sublist

/-- A script halts at a token that comes. -/
theorem Ascending.halts_token {script : Script} (ascending : script.Ascending) (lexeme : Lexeme) :
    (script.token lexeme.span.start lexeme.text).Halts lexeme := by
  refine ⟨⟨_, rfl⟩, fun row mem => ?_⟩
  have falling : script.table.Pairwise fun row next =>
      decide (next.offset < lexeme.span.start) = true →
        decide (row.offset < lexeme.span.start) = true := by
    refine List.Pairwise.imp (fun before => ?_) ascending
    simp only [decide_eq_true_eq]
    omega
  have mem : row ∈ script.table.dropWhile (·.offset < lexeme.span.start) := mem
  rw [dropWhile_eq_filter falling] at mem
  simpa using (List.mem_filter.mp mem).2

mutual
/-- A script halts at the last token of a tree. -/
theorem halts_tree : ∀ (tree : Positional) {script : Script},
    (∀ node ∈ tree.preorder, Halting registry node) → tree.kind.isOpenEnded = false →
    script.Ascending → ∀ lexeme ∈ tree.tokens.getLast?,
      (Script.tree registry tree script).Halts lexeme
  | .node kind span slots, script, halting, closed, ascending, lexeme, isLast => by
      rw [SlotTree.preorder] at halting
      obtain ⟨here, below⟩ := List.forall_mem_cons.mp halting
      rw [Script.tree]
      exact halts_slots (.node kind span slots) script.tokens here closed (registry.anchorsOf kind)
        slots List.suffix_rfl List.suffix_rfl here.counted below ascending lexeme isLast

theorem halts_slots (node : Positional) (tokens : Nat) (halting : Halting registry node)
    (closed : node.kind.isOpenEnded = false) :
    ∀ (shapes : List AnchorShape) (slots : List PositionalSlot) {script : Script},
      shapes <:+ registry.anchorsOf node.kind → slots <:+ node.slots →
      shapes.length = slots.length → (∀ node ∈ preorderSlots slots, Halting registry node) →
      script.Ascending → ∀ lexeme ∈ (tokensSlots slots).getLast?,
        (Script.slots registry node tokens shapes slots script).Halts lexeme
  | _, [], _, _, _, _, _, _, lexeme, isLast => by cases isLast
  | [], _ :: _, _, _, _, counted, _, _, _, _ => by cases counted
  | shape :: shapes, slot :: slots, script, isShapes, isSlots, counted, below, ascending, lexeme,
      isLast => by
      have counted : shapes.length = slots.length := Nat.succ.inj counted
      rw [SlotTree.preorderSlots_cons] at below
      obtain ⟨first, others⟩ := List.forall_mem_append.mp below
      have onward := @onward_slot registry node tokens shape slots slot script
      rw [tokensSlots, List.getLast?_append] at isLast
      simp only [Script.slots]
      by_cases silent : tokensSlots slots = []
      -- Nothing comes behind this slot.
      · have absent := absent_of_tokensSlots (fun node mem => (others node mem).filled) silent
        rw [Script.slots_eq_self node tokens counted absent]
        rw [silent, List.getLast?_nil, Option.none_or] at isLast
        exact halts_slot node tokens shape slots slot
          (halting.last closed isShapes isSlots counted silent) (nextToken?_eq_none absent) first
          ascending lexeme isLast
      · refine halts_slots node tokens halting closed shapes slots
          ((List.suffix_cons _ _).trans isShapes) ((List.suffix_cons _ _).trans isSlots) counted
          others (ascending.onward onward) lexeme ?_
        rwa [List.getLast?_eq_some_getLast silent, Option.some_or,
          ← List.getLast?_eq_some_getLast silent] at isLast

theorem halts_slot (node : Positional) (tokens : Nat) (shape : AnchorShape)
    (following : List PositionalSlot) : ∀ (slot : PositionalSlot) {script : Script},
      LastSlot node shape slot → nextToken? following = none →
      (∀ node ∈ preorderSlots [slot], Halting registry node) → script.Ascending →
      ∀ lexeme ∈ (tokensSlot slot).getLast?,
        (Script.slot registry node tokens shape following slot script).Halts lexeme
  | .token none, _, _, _, _, _, _, isLast => by cases isLast
  | .token (some token), script, _, _, _, ascending, lexeme, isLast => by
      obtain rfl := Option.some.inj isLast
      rw [Script.slot]
      exact (ascending.onward (script.onward_askGap tokens shape.gap)).halts_token token
  | .child none, _, _, _, _, _, _, isLast => by cases isLast
  | .child (some child), script, last, _, below, ascending, lexeme, isLast => by
      rw [Script.slot]
      exact halts_tree child (by simpa [preorderSlots] using below)
        (last.trees child (by simp [Slot.trees]))
        (ascending.onward (script.onward_askGap tokens shape.gap)) lexeme isLast
  | .list [] _, _, _, _, _, _, _, isLast => by cases isLast
  | .list (element :: elements) separators, script, last, unbound, below, ascending, lexeme,
      isLast => by
      have fits := last.fits
      rw [Script.slot]
      cases isList : shape.slot with
      | token | child => simp [isList, Slot.fits] at fits
      | list layout =>
        have onLine := last.onLine layout isList rfl
        have halts := halts_elements tokens
          ⟨isLines node layout.style, layout.separator, shape.gap, nextToken? following⟩ unbound
          (element :: elements) true separators last.trees (by simpa [preorderSlots] using below)
          ascending lexeme isLast
        simpa [onLine] using halts

theorem halts_elements (tokens : Nat) (plan : ListPlan) (unbound : plan.bound = none) :
    ∀ (elements : List Positional) (first : Bool) (separators : List Span) {script : Script},
      (∀ tree ∈ elements, tree.kind.isOpenEnded = false) →
      (∀ node ∈ preorderElements elements, Halting registry node) → script.Ascending →
      ∀ lexeme ∈ (tokensElements elements).getLast?,
        (Script.elements registry tokens plan first separators elements script).Halts lexeme
  | [], _, _, _, _, _, _, _, isLast => by cases isLast
  | element :: elements, first, separators, script, closed, below, ascending, lexeme, isLast => by
      obtain ⟨here, others⟩ := List.forall_mem_cons.mp closed
      rw [preorderElements] at below
      obtain ⟨inside, behind⟩ := List.forall_mem_append.mp below
      have asked := ascending.onward (script.onward_askElement tokens plan first)
      rw [tokensElements, List.getLast?_append] at isLast
      simp only [Script.elements]
      cases elements with
      | nil =>
        have halts := halts_tree element inside here asked lexeme
          (by simpa [tokensElements] using isLast)
        have unseparated (script : Script) (offset : Nat) :
            script.separator plan offset true = script := by
          unfold separator
          cases plan.separator <;> simp [unbound]
        rw [List.isEmpty_nil, unseparated, Script.elements]
        exact halts
      | cons next elements =>
        have some : tokensElements (next :: elements) ≠ [] := by
          rw [tokensElements]
          refine List.append_ne_nil_of_left_ne_nil (behind next ?_).filled _
          simp [preorderElements, next.self_mem_preorder]
        refine halts_elements tokens plan unbound (next :: elements) false _ others behind
          ((asked.onward (onward_tree element _)).onward (onward_separator _ plan _ _)) lexeme ?_
        rwa [List.getLast?_eq_some_getLast some, Option.some_or,
          ← List.getLast?_eq_some_getLast some] at isLast
end

/-- A script halts at the last token of the last element of a list. -/
theorem halts_upToLast (tokens : Nat) (plan : ListPlan) {first : Bool} {separators : List Span}
    {element : Positional} {elements : List Positional} {script : Script}
    (closed : ∀ tree ∈ element :: elements, tree.kind.isOpenEnded = false)
    (below : ∀ tree ∈ element :: elements, ∀ node ∈ tree.preorder, Halting registry node)
    (ascending : script.Ascending) {last : Positional}
    (isLast : last ∈ (element :: elements).getLast?) :
    ∀ lexeme ∈ last.tokens.getLast?,
      (upToLast registry tokens plan first separators element elements script).Halts lexeme := by
  have asked (first : Bool) {script : Script} (ascending : script.Ascending) :=
    ascending.onward (script.onward_askElement tokens plan first)
  induction elements generalizing first separators element script with
  | nil =>
    obtain rfl : element = last := by simpa using isLast
    exact halts_tree element (below element List.mem_cons_self) (closed element List.mem_cons_self)
      (asked first ascending)
  | cons next elements ih =>
    obtain ⟨-, closed⟩ := List.forall_mem_cons.mp closed
    obtain ⟨-, below⟩ := List.forall_mem_cons.mp below
    refine ih closed below ?_ (by simpa using isLast)
    exact ((asked first ascending).onward (onward_tree element _)).onward (onward_separator _ plan _ _)

end Script

end GoTrivia
